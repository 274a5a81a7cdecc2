/-!
Natural numbers written in a given radix, with an optional plus sign.
-/
namespace HandlerWeave.Text

/-- The value of a digit, letters following the decimal digits. -/
def digitValue? (radix : Nat) (c : Char) : Option Nat :=
  let value :=
    if c.isDigit then c.toNat - '0'.toNat
    else if 'a' ≤ c ∧ c ≤ 'z' then c.toNat - 'a'.toNat + 10
    else if 'A' ≤ c ∧ c ≤ 'Z' then c.toNat - 'A'.toNat + 10
    else radix
  if value < radix then some value else none

def unsignedValue? (radix : Nat) (cs : List Char) : Option Nat :=
  if cs.isEmpty then none
  else (cs.mapM (digitValue? radix)).map (·.foldl (fun n d => n * radix + d) 0)

/-- Reads all of `cs`. At least one digit is needed. -/
def naturalValue? (radix : Nat) : List Char → Option Nat
  | '+' :: cs => unsignedValue? radix cs
  | cs => unsignedValue? radix cs

end HandlerWeave.Text
