import HandlerWeave.Decimal.Double

/-!
The decimal of fewest digits that lies nearer to a double than to any other, and its text.

For each number of digits the two neighbours of the double on that decimal grid are tried, in exact
arithmetic; the first grid with a hit wins, the nearer of two hits, the even one of equals.
-/
namespace HandlerWeave.Decimal

/-- The number `digits * 10 ^ exponent`. -/
structure Scaled where
  digits : Nat
  exponent : Int
deriving DecidableEq, Repr

/-- Both sides of a comparison of `c * 10 ^ power` with multiples of a quarter of `d`'s unit, as
whole factors. -/
def scales (d : Dyadic) (power : Int) : Nat × Nat :=
  let two := d.exponent - 2
  (Nat.pow 10 power.toNat * Nat.pow 2 (-two).toNat,
    Nat.pow 10 (-power).toNat * Nat.pow 2 two.toNat)

/-- `10 ^ power ≤ d`. -/
def reachesPower (d : Dyadic) (power : Int) : Bool :=
  let (decimal, quarter) := scales d power
  decimal ≤ 4 * d.mantissa * quarter

/-- The greatest power of ten that is at most `d`, searched upward from `power`. -/
def leadingPower (d : Dyadic) (power : Int) : Nat → Int
  | 0 => power
  | steps + 1 => if reachesPower d (power + 1) then leadingPower d (power + 1) steps else power

/-- A first guess at the leading power that is never too high. -/
def guessPower (d : Dyadic) : Int :=
  (((d.mantissa.log2 : Int) + d.exponent) * 30103).fdiv 100000 - 1

/-- The best decimal on the grid of `10 ^ power`, if one reads back as `d`. -/
def onGrid? (d : Dyadic) (power : Int) : Option Nat :=
  let (decimal, quarter) := scales d power
  let value := 4 * d.mantissa * quarter
  let below := if d.mantissa = leastMantissa ∧ d.exponent > -1074 then 1 else 2
  let low := (4 * d.mantissa - below) * quarter
  let high := (4 * d.mantissa + 2) * quarter
  let even := d.mantissa % 2 = 0
  let fits (n : Nat) : Bool :=
    let place := n * decimal
    if even then low ≤ place && place ≤ high else low < place && place < high
  let floor := value / decimal
  match fits floor, fits (floor + 1) with
  | false, false => none
  | true, false => some floor
  | false, true => some (floor + 1)
  | true, true =>
    let left := value - floor * decimal
    let right := (floor + 1) * decimal - value
    if left < right || (left = right && floor % 2 = 0) then some floor else some (floor + 1)

/-- Tries grids with more and more digits. -/
def search (d : Dyadic) (power : Int) : Nat → Scaled
  | 0 => ⟨0, 0⟩
  | steps + 1 =>
    match onGrid? d power with
    | some digits => ⟨digits, power⟩
    | none => search d (power - 1) steps

def shortest (d : Dyadic) : Scaled := search d (leadingPower d (guessPower d) 4) 17

/-- The digits without zeros at the end, and how many zeros there were. -/
def stripZeros (digits : List Char) : List Char × Nat :=
  let kept := (digits.reverse.dropWhile (· == '0')).reverse
  (kept, digits.length - kept.length)

/-- How many places the point may stand behind the first digit, and before it, for the number to be
written without an exponent. -/
def pointBehind : Int := 16

def pointBefore : Int := -5

/-- The digits with their point `point` places behind the start, or with an exponent when that would
take too many zeros. A whole number keeps one place behind the point. -/
def positional (digits : List Char) (point : Int) : List Char :=
  let length : Int := digits.length
  if length ≤ point ∧ point ≤ pointBehind then
    digits ++ List.replicate (point - length).toNat '0' ++ ['.', '0']
  else if 0 < point ∧ point ≤ pointBehind then
    digits.take point.toNat ++ '.' :: digits.drop point.toNat
  else if pointBefore < point ∧ point ≤ 0 then
    '0' :: '.' :: (List.replicate point.natAbs '0' ++ digits)
  else
    let exponent := 'e' :: (toString (point - 1)).toList
    match digits with
    | [] => exponent
    | [d] => d :: exponent
    | d :: rest => d :: '.' :: rest ++ exponent

def text (f : Float) : String :=
  let sign := if isNegative f then ['-'] else []
  let d := magnitude f
  let body :=
    if d.mantissa = 0 then ['0', '.', '0']
    else
      let decimal := shortest d
      let (digits, zeros) := stripZeros (Nat.toDigits 10 decimal.digits)
      positional digits (digits.length + decimal.exponent + zeros)
  String.ofList (sign ++ body)

end HandlerWeave.Decimal
