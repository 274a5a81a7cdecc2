import HandlerWeave.Text.Radix

/-!
Quoted text: writing a string between single quotes, and reading what stands between any quotes.
-/
namespace HandlerWeave.Text

namespace Quoted

def encode : List Char → List Char
  | [] => []
  | c :: cs => if c = '\\' ∨ c = '\'' then '\\' :: c :: encode cs else c :: encode cs

/-- The character with the given number in hexadecimal, if there is one. -/
def charOfHex (digits : List Char) : List Char :=
  match naturalValue? 16 digits with
  | some n => if n.isValidChar then [Char.ofNat n] else []
  | none => []

/-- What an escape stands for, and how many characters behind its backslash belong to it. A line
break stands for nothing; a character without a meaning of its own stands for itself. -/
def escape : List Char → List Char × Nat
  | [] => (['\\'], 0)
  | c :: cs => match c with
    | 'n' => (['\n'], 1)
    | 't' => (['\t'], 1)
    | 'r' => (['\r'], 1)
    | 'b' => (['\x08'], 1)
    | 'f' => (['\x0c'], 1)
    | 'v' => (['\x0b'], 1)
    | '0' => (['\x00'], 1)
    | '\n' => ([], 1)
    | 'x' => (charOfHex (cs.take 2), 3)
    | 'u' =>
      match cs with
      | '\x7b' :: digits =>
        let digits := digits.takeWhile (· != '\x7d')
        (charOfHex digits, digits.length + 3)
      | _ => (charOfHex (cs.take 4), 5)
    | c => ([c], 1)

/-- Reads a body whose first `skip` characters belong to an escape that is already read. -/
def decode : Nat → List Char → List Char
  | _, [] => []
  | skip + 1, _ :: cs => decode skip cs
  | 0, c :: cs =>
    if c = '\\' then
      let (text, length) := escape cs
      text ++ decode length cs
    else c :: decode 0 cs

end Quoted

def quote (s : String) : String :=
  "'" ++ String.ofList (Quoted.encode s.toList) ++ "'"

/-- The text a literal stands for, its delimiters included in `raw`. -/
def unquote (raw : String) : String :=
  let cs := raw.toList
  let body := if raw.utf8ByteSize < 2 then cs else (cs.drop 1).dropLast
  String.ofList (Quoted.decode 0 body)

def isIdentifier (name : String) : Bool :=
  match name.toList with
  | [] => false
  | c :: cs =>
    (c.isAlpha || c == '_' || c == '$') && cs.all fun c => c.isAlphanum || c == '_' || c == '$'

/-- A member name as declarations write it: bare when it is an identifier, else quoted. -/
def memberName (name : String) : String := if isIdentifier name then name else quote name

end HandlerWeave.Text
