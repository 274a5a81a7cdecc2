import HandlerWeave.Decimal.Numeral
import HandlerWeave.Yaml.Value

/-!
What a plain scalar stands for, and which texts have to be quoted for that reason.
-/
namespace HandlerWeave.Yaml.Plain

def nulls : List String := ["null", "Null", "NULL", "~"]

def trues : List String := ["true", "True", "TRUE"]

def falses : List String := ["false", "False", "FALSE"]

def startsWithSign (cs : List Char) : Bool := cs.head? == some '+' || cs.head? == some '-'

def dropSign (cs : List Char) : List Char := if startsWithSign cs then cs.drop 1 else cs

/-- A zero with further digits behind it is text. -/
def isZeroPadded (cs : List Char) : Bool :=
  match dropSign cs with
  | '0' :: d :: rest => (d :: rest).all Char.isDigit
  | _ => false

/-- The value of a numeral with a mark for its base. -/
def based? : List Char → Option Nat
  | '0' :: 'x' :: cs => Text.unsignedValue? 16 cs
  | '0' :: 'o' :: cs => Text.unsignedValue? 8 cs
  | '0' :: 'b' :: cs => Text.unsignedValue? 2 cs
  | _ => none

def natural? (cs : List Char) : Option Nat :=
  match based? cs with
  | some n => some n
  | none => if isZeroPadded cs then none else Text.unsignedValue? 10 cs

def integer? : List Char → Option Int
  | '+' :: cs => (natural? cs).map Int.ofNat
  | '-' :: cs => (natural? cs).map fun n => -(n : Int)
  | cs => (natural? cs).map Int.ofNat

/-- An integer of 64 bits, signed or not. -/
def isNarrow (n : Int) : Bool := -0x8000000000000000 ≤ n && n < 0x10000000000000000

/-- An integer of 128 bits, signed or not. -/
def isWide (n : Int) : Bool :=
  -0x80000000000000000000000000000000 ≤ n && n < 0x100000000000000000000000000000000

def float? (cs : List Char) : Option Float :=
  let text := String.ofList cs
  let infinities := [".inf", ".Inf", ".INF"]
  if infinities.contains text || infinities.any (fun s => text == "+" ++ s) then some (1.0 / 0.0)
  else if infinities.any (fun s => text == "-" ++ s) then some (-1.0 / 0.0)
  else if [".nan", ".NaN", ".NAN"].contains text then some (0.0 / 0.0)
  else
    match Decimal.double? cs with
    | some f => if f.isFinite then some f else none
    | none => none

/-- The value of a plain scalar; nothing for an integer that is too wide to hold and yet counts as
an integer. -/
def value? (text : String) : Option Yaml :=
  let cs := text.toList
  if cs.isEmpty || nulls.contains text then some .null
  else if trues.contains text then some (.bool true)
  else if falses.contains text then some (.bool false)
  else
    match integer? cs with
    | some n =>
      if isNarrow n then some (.number (.int n))
      else if isWide n then none
      else match float? cs with
        | some f => some (.number (.float f))
        | none => some (.string text)
    | none =>
      if isZeroPadded cs then some (.string text)
      else match float? cs with
        | some f => some (.number (.float f))
        | none => some (.string text)

/-- A string that has to be quoted because its plain form means something else. -/
def isAmbiguous (text : String) : Bool :=
  isZeroPadded text.toList ||
    match value? text with
    | some (.string _) => false
    | _ => true

end HandlerWeave.Yaml.Plain
