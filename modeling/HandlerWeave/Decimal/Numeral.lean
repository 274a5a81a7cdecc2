import HandlerWeave.Decimal.Double
import HandlerWeave.Text.Radix

/-!
Reading decimal numerals: digits with an optional point and an optional exponent.
-/
namespace HandlerWeave.Decimal

/-- The exponent at the end of a numeral; none at all counts as zero. -/
def exponentValue? : List Char → Option Int
  | [] => some 0
  | c :: cs =>
    if c = 'e' ∨ c = 'E' then
      match cs with
      | '-' :: digits => (Text.unsignedValue? 10 digits).map fun n => -(n : Int)
      | '+' :: digits => (Text.unsignedValue? 10 digits).map fun n => (n : Int)
      | digits => (Text.unsignedValue? 10 digits).map fun n => (n : Int)
    else none

/-- The double nearest to an unsigned numeral. At least one digit is needed. -/
def unsignedDouble? (cs : List Char) : Option Float :=
  let whole := cs.takeWhile Char.isDigit
  let rest := cs.drop whole.length
  let fraction := match rest with
    | '.' :: r => r.takeWhile Char.isDigit
    | _ => []
  let rest := match rest with
    | '.' :: r => r.drop fraction.length
    | _ => rest
  match Text.unsignedValue? 10 (whole ++ fraction), exponentValue? rest with
  | some digits, some exponent => some (toDouble digits (exponent - fraction.length))
  | _, _ => none

def double? : List Char → Option Float
  | '+' :: cs => unsignedDouble? cs
  | '-' :: cs => (unsignedDouble? cs).map fun f => -f
  | cs => unsignedDouble? cs

end HandlerWeave.Decimal
