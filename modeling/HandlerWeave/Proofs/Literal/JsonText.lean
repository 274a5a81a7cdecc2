import HandlerWeave.Proofs.Literal.Entries
import HandlerWeave.Decimal.Double

/-!
The texts of JSON and the values that they stand for. Null is left out, for which no literal stands,
and so are escapes of surrogates, which are no characters on their own.
-/
namespace HandlerWeave.JsonText

def Blank (cs : List Char) : Prop := ∀ c ∈ cs, c ∈ [' ', '\t', '\n', '\r']

/-- The letters that stand behind a backslash, each with the character that is meant. -/
def shortEscapes : List (Char × Char) :=
  [('"', '"'), ('\\', '\\'), ('/', '/'), ('b', '\x08'), ('f', '\x0c'), ('n', '\n'), ('r', '\r'),
    ('t', '\t')]

/-- The hexadecimal digits and their values. -/
def hexDigits : List (Char × Nat) :=
  [('0', 0), ('1', 1), ('2', 2), ('3', 3), ('4', 4), ('5', 5), ('6', 6), ('7', 7), ('8', 8),
    ('9', 9), ('a', 10), ('b', 11), ('c', 12), ('d', 13), ('e', 14), ('f', 15), ('A', 10),
    ('B', 11), ('C', 12), ('D', 13), ('E', 14), ('F', 15)]

def hexValue (digits : List (Char × Nat)) : Nat := digits.foldl (fun n d => 16 * n + d.2) 0

/-- The ways to write one character of a string. -/
inductive WritesChar : List Char → Char → Prop
  | plain {c : Char} (hcontrol : ' ' ≤ c) (hquote : c ≠ '"') (hback : c ≠ '\\') : WritesChar [c] c
  | short {letter c : Char} (h : (letter, c) ∈ shortEscapes) : WritesChar ['\\', letter] c
  | code {digits : List (Char × Nat)} (hdigits : ∀ d ∈ digits, d ∈ hexDigits)
      (hlength : digits.length = 4)
      (hsurrogate : ¬ (0xd800 ≤ hexValue digits ∧ hexValue digits < 0xe000)) :
      WritesChar ('\\' :: 'u' :: digits.map Prod.fst) (Char.ofNat (hexValue digits))

/-- What stands between the quotes, and the characters that are meant. -/
inductive WritesBody : List Char → List Char → Prop
  | nil : WritesBody [] []
  | cons {cs rest text : List Char} {c : Char} (h : WritesChar cs c)
      (hrest : WritesBody rest text) : WritesBody (cs ++ rest) (c :: text)

def quoted (body : List Char) : List Char := '"' :: (body ++ ['"'])

def Digits (cs : List Char) : Prop := ∀ c ∈ cs, c.isDigit = true

structure Exponent where
  mark : Char
  sign : List Char
  digits : List Char
  mark_mem : mark = 'e' ∨ mark = 'E'
  sign_mem : sign = [] ∨ sign = ['+'] ∨ sign = ['-']
  digits_ne_nil : digits ≠ []
  decimal : Digits digits

namespace Exponent

def text (e : Exponent) : List Char := e.mark :: (e.sign ++ e.digits)

def value (e : Exponent) : Int :=
  if e.sign = ['-'] then -(Nat.ofDigitChars 10 e.digits 0 : Int)
  else (Nat.ofDigitChars 10 e.digits 0 : Int)

end Exponent

/-- A numeral in its parts. Where no digits stand behind the point, there is no point. -/
structure Numeral where
  negative : Bool
  whole : List Char
  fraction : List Char
  exponent : Option Exponent
  whole_ne_nil : whole ≠ []
  whole_digits : Digits whole
  /-- Only a zero on its own has a zero in front. -/
  leading : whole.head? = some '0' → whole = ['0']
  fraction_digits : Digits fraction

namespace Numeral

def fractionText (n : Numeral) : List Char :=
  if n.fraction = [] then [] else '.' :: n.fraction

def exponentText (n : Numeral) : List Char := (n.exponent.map Exponent.text).getD []

/-- The numeral without its sign. -/
def size (n : Numeral) : List Char := n.whole ++ (n.fractionText ++ n.exponentText)

def text (n : Numeral) : List Char := if n.negative then '-' :: n.size else n.size

/-- The double nearest to the numeral without its sign. -/
def magnitude (n : Numeral) : Float :=
  Decimal.toDouble (Nat.ofDigitChars 10 (n.whole ++ n.fraction) 0)
    ((n.exponent.map Exponent.value).getD 0 - n.fraction.length)

def value (n : Numeral) : Float := if n.negative then -n.magnitude else n.magnitude

end Numeral

/-- The key of a member, with the white space around it. -/
structure Key where
  front : List Char
  body : List Char
  name : String
  back : List Char
  front_blank : Blank front
  writes : WritesBody body name.toList
  back_blank : Blank back

def Key.text (k : Key) : List Char := k.front ++ (quoted k.body ++ k.back)

/-- The text stands for the value. A repeated key keeps its first place and has its last value. -/
inductive Writes : List Char → Literal → Prop
  | string {body : List Char} {s : String} (h : WritesBody body s.toList) :
      Writes (quoted body) (.string s)
  | number (n : Numeral) : Writes n.text (.number n.value)
  | bool (b : Bool) : Writes (if b then "true" else "false").toList (.bool b)
  | spaced {front cs back : List Char} {v : Literal} (hfront : Blank front) (h : Writes cs v)
      (hback : Blank back) : Writes (front ++ (cs ++ back)) v
  | emptyArray {gap : List Char} (h : Blank gap) : Writes ('[' :: (gap ++ [']'])) (.array [])
  | array {items : List (List Char × Literal)} (hne : items ≠ [])
      (h : ∀ item ∈ items, Writes item.1 item.2) :
      Writes ('[' :: ([','].intercalate (items.map Prod.fst) ++ [']']))
        (.array (items.map Prod.snd))
  | emptyObject {gap : List Char} (h : Blank gap) :
      Writes ('\x7b' :: (gap ++ ['\x7d'])) (.object [])
  | object {members : List (Key × List Char × Literal)} (hne : members ≠ [])
      (h : ∀ member ∈ members, Writes member.2.1 member.2.2) :
      Writes
        ('\x7b' :: ([','].intercalate (members.map fun member => member.1.text ++ ':' :: member.2.1)
          ++ ['\x7d']))
        (.object (Literal.lastEntries (members.map fun member => (member.1.name, member.2.2))))

end HandlerWeave.JsonText
