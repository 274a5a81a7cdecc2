import HandlerWeave.Decimal.Numeral
import HandlerWeave.Literal.Value
import HandlerWeave.Source.Tree

/-!
Evaluation of literal expressions. What is no literal becomes unknown, and its excerpt is listed
once, in source order.
-/
namespace HandlerWeave.Literal

def excerptLength : Nat := 60

def words : List Char → List (List Char)
  | [] => []
  | c :: cs =>
    if Text.isBlank c then words cs
    else match cs with
      | [] => [[c]]
      | d :: _ =>
        if Text.isBlank d then [c] :: words cs
        else match words cs with
          | [] => [[c]]
          | word :: rest => (c :: word) :: rest

/-- A text on one line, cut after sixty characters. -/
def excerpt (text : String) : String :=
  let line := [' '].intercalate (words text.toList)
  if line.length ≤ excerptLength then String.ofList line
  else String.ofList (line.take excerptLength ++ ['…'])

/-- The value of a numeral in any base, separators and the mark of big integers left out. -/
def numberValue? (text : String) : Option Float :=
  let digits := text.toList.filter (· ≠ '_')
  let digits := if digits.getLast? = some 'n' then digits.dropLast else digits
  let based (radix : Nat) (cs : List Char) : Option Float :=
    match Text.naturalValue? radix cs with
    | some n => if n < 0x10000000000000000 then some (UInt64.ofNat n).toFloat else none
    | none => none
  match digits with
  | '0' :: 'x' :: cs | '0' :: 'X' :: cs => based 16 cs
  | '0' :: 'o' :: cs | '0' :: 'O' :: cs => based 8 cs
  | '0' :: 'b' :: cs | '0' :: 'B' :: cs => based 2 cs
  | cs => Decimal.double? cs

/-- A value, and the excerpts of what in it was not understood. -/
abbrev Evaluated := Literal × List String

def unsupported (text : String) : Evaluated := (.unknown (excerpt text), [excerpt text])

open Source

mutual

def evaluate : Expr → Evaluated
  | .object members =>
    let (entries, excerpts) := evaluateMembers [] members
    (.object entries, excerpts)
  | .array items =>
    let (values, excerpts) := evaluateItems items
    (.array values, excerpts)
  | .string s => (.string s, [])
  | .template text false => (.string text, [])
  | .bool b => (.bool b, [])
  | .number text =>
    match numberValue? text with
    | some f => (.number f, [])
    | none => unsupported text
  | .negate (.number text) =>
    match numberValue? text with
    | some f => (.number (-f), [])
    | none => unsupported ("-" ++ text)
  | expr => unsupported expr.describe

def evaluateItems : List Expr → List Literal × List String
  | [] => ([], [])
  | item :: items =>
    let (value, first) := evaluate item
    let (values, rest) := evaluateItems items
    (value :: values, first ++ rest)

/-- Adds the members to the entries read before them. -/
def evaluateMembers (entries : List (String × Literal)) :
    List ObjectMember → List (String × Literal) × List String
  | [] => (entries, [])
  | .property key expr :: members =>
    let (value, first) := evaluate expr
    let (entries, rest) := evaluateMembers (insert key value entries) members
    (entries, first ++ rest)
  | .shorthand name :: members =>
    let (value, first) := unsupported name
    let (entries, rest) := evaluateMembers (insert name value entries) members
    (entries, first ++ rest)
  | .verbatim text :: members =>
    let (_, first) := unsupported text
    let (entries, rest) := evaluateMembers entries members
    (entries, first ++ rest)

end

end HandlerWeave.Literal
