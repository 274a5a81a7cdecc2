/-!
Doubles as exact numbers: a finite double is a whole number times a power of two.
-/
namespace HandlerWeave.Decimal

/-- The number `mantissa * 2 ^ exponent`. -/
structure Dyadic where
  mantissa : Nat
  exponent : Int
deriving DecidableEq, Repr

/-- Mantissas of most doubles start here and end below twice this. -/
def leastMantissa : Nat := 0x10000000000000

/-- The size of a finite double. -/
def magnitude (f : Float) : Dyadic :=
  let bits := f.toBits.toNat
  let fraction : Nat := bits % leastMantissa
  let field : Nat := bits / leastMantissa % 0x800
  if field = 0 then ⟨fraction, -1074⟩ else ⟨fraction + leastMantissa, (field : Int) - 1075⟩

def isNegative (f : Float) : Bool := f.toBits.toNat ≥ 0x8000000000000000

def Dyadic.whole? (d : Dyadic) : Option Nat :=
  let power := Nat.pow 2 d.exponent.natAbs
  if d.exponent ≥ 0 then some (d.mantissa * power)
  else if d.mantissa % power = 0 then some (d.mantissa / power)
  else none

/-- The whole number that equals a double, if there is one. -/
def whole? (f : Float) : Option Int :=
  if f.isFinite then
    (magnitude f).whole?.map fun n => if isNegative f then -(n : Int) else n
  else none

/-- The double nearest to `digits * 10 ^ exponent`. -/
def toDouble (digits : Nat) (exponent : Int) : Float :=
  let size : Int := exponent + (Nat.toDigits 10 digits).length
  if digits = 0 ∨ size < -400 then 0.0
  else if size > 400 then 1.0 / 0.0
  else Float.ofScientific digits (exponent < 0) exponent.natAbs

end HandlerWeave.Decimal
