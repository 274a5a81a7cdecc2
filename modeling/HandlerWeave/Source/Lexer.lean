import HandlerWeave.Source.Token
import HandlerWeave.Text.Position

/-!
Splitting a text into tokens. At every position the longest lexeme wins; what starts none becomes a
stray token, so that every text has tokens and each character belongs to exactly one token or gap.

A lexeme is recognised at its first character and given as the number of further characters it
takes.
-/
namespace HandlerWeave.Source

def isBlank (c : Char) : Bool :=
  c == ' ' || c == '\t' || c == '\r' || c == '\n' || c == '\x0c'

def isWordStart (c : Char) : Bool := c.isAlpha || c == '_' || c == '$'

def isWordPart (c : Char) : Bool := c.isAlphanum || c == '_' || c == '$'

namespace Lexer

def prefixLength (p : Char → Bool) (cs : List Char) : Nat := (cs.takeWhile p).length

def commentLength? : List Char → Option Nat
  | '*' :: '/' :: _ => some 2
  | _ :: cs => (commentLength? cs).map (· + 1)
  | [] => none

/-- How far a quoted body reaches: through its closing delimiter, or up to where it gets stuck. -/
inductive Body
  | closed (length : Nat)
  | stuck (length : Nat)
deriving DecidableEq, Repr

def Body.grow (n : Nat) : Body → Body
  | closed length => closed (length + n)
  | stuck length => stuck (length + n)

/-- A backslash takes the next character with it, unless that is a line break. Only a body between
backticks may hold a plain line break. -/
def body (delimiter : Char) : List Char → Body
  | [] => .stuck 0
  | ['\\'] => .stuck 0
  | '\\' :: c :: cs => if c = '\n' then .stuck 0 else (body delimiter cs).grow 2
  | c :: cs =>
    if c = delimiter then .closed 1
    else if c = '\n' && delimiter != '`' then .stuck 0
    else (body delimiter cs).grow 1

def isDigitPart (c : Char) : Bool := c.isDigit || c == '_'

def isHexPart (c : Char) : Bool :=
  isDigitPart c || ('a' ≤ c && c ≤ 'f') || ('A' ≤ c && c ≤ 'F')

def isOctalPart (c : Char) : Bool := ('0' ≤ c && c ≤ '7') || c == '_'

def isBinaryPart (c : Char) : Bool := c == '0' || c == '1' || c == '_'

def exponentLength : List Char → Nat
  | c :: cs =>
    if c = 'e' || c = 'E' then
      let sign := match cs with
        | '+' :: _ | '-' :: _ => 1
        | _ => 0
      match prefixLength Char.isDigit (cs.drop sign) with
      | 0 => 0
      | digits => 1 + sign + digits
    else 0
  | [] => 0

def bigMarkLength : List Char → Nat
  | 'n' :: _ => 1
  | _ => 0

def decimalLength (cs : List Char) : Nat :=
  let whole := prefixLength isDigitPart cs
  let fraction := match cs.drop whole with
    | '.' :: r => 1 + prefixLength isDigitPart r
    | _ => 0
  let exponent := exponentLength (cs.drop (whole + fraction))
  whole + fraction + exponent + bigMarkLength (cs.drop (whole + fraction + exponent))

def basedLength? (cs : List Char) : Option Nat :=
  let digits (part : Char → Bool) (r : List Char) : Option Nat :=
    match prefixLength part r with
    | 0 => none
    | n => some (1 + n + bigMarkLength (r.drop n))
  match cs with
  | 'x' :: r | 'X' :: r => digits isHexPart r
  | 'b' :: r | 'B' :: r => digits isBinaryPart r
  | 'o' :: r | 'O' :: r => digits isOctalPart r
  | _ => none

def numberLength (first : Char) (cs : List Char) : Nat :=
  match (if first = '0' then basedLength? cs else none) with
  | some n => n
  | none => decimalLength cs

def fractionLength (cs : List Char) : Nat :=
  let digits := prefixLength isDigitPart cs
  digits + exponentLength (cs.drop digits)

/-- The words after which a slash opens a pattern and does not divide. -/
def operandFollows : List String :=
  ["return", "typeof", "instanceof", "in", "of", "new", "delete", "void", "throw", "case", "do",
    "else", "yield", "await"]

/-- A slash opens a pattern unless the token before it ends an operand. -/
def opensRegex : Option Token → Bool
  | none => true
  | some t => match t.kind with
    | .word => operandFollows.contains t.text
    | .string | .template | .number | .regex | .rightParen | .rightBracket | .rightBrace => false
    | _ => true

/-- The length of a pattern after its opening slash, flags included; nothing when the line ends
first. A slash inside brackets or after a backslash does not close it. -/
def patternLength? (inClass escaped : Bool) : List Char → Option Nat
  | [] => none
  | c :: cs =>
    if c = '\n' || c = '\r' then none
    else if escaped then (patternLength? inClass false cs).map (· + 1)
    else if c = '\\' then (patternLength? inClass true cs).map (· + 1)
    else if c = '[' then (patternLength? true false cs).map (· + 1)
    else if c = ']' then (patternLength? false false cs).map (· + 1)
    else if c = '/' && !inClass then some (1 + prefixLength Char.isAlpha cs)
    else (patternLength? inClass false cs).map (· + 1)

def regexLength? (cs : List Char) : Option Nat :=
  if cs.head? = some '/' then none else patternLength? false false cs

inductive Lexeme
  | gap
  | token (kind : Token.Kind)
deriving DecidableEq, Repr

/-- What starts with a slash: a comment, a pattern or an operator. -/
def slash (before : Option Token) (cs : List Char) : Lexeme × Nat :=
  match cs with
  | '/' :: r => (.gap, 1 + prefixLength (· != '\n') r)
  | '*' :: r =>
    match commentLength? r with
    | some n => (.gap, 1 + n)
    | none => (.token .stray, cs.length)
  | _ =>
    match (if opensRegex before then regexLength? cs else none) with
    | some n => (.token .regex, n)
    | none => (.token .operator, 0)

def quoted (kind : Token.Kind) (delimiter : Char) (cs : List Char) : Lexeme × Nat :=
  match body delimiter cs with
  | .closed n => (.token kind, n)
  | .stuck n => (.token .stray, n)

def mark? : Char → Option Token.Kind
  | '\x7b' => some .leftBrace
  | '\x7d' => some .rightBrace
  | '(' => some .leftParen
  | ')' => some .rightParen
  | '[' => some .leftBracket
  | ']' => some .rightBracket
  | '<' => some .less
  | '>' => some .greater
  | ';' => some .semicolon
  | ',' => some .comma
  | ':' => some .colon
  | '?' => some .question
  | '@' => some .atSign
  | '|' => some .pipe
  | '&' => some .ampersand
  | '!' => some .bang
  | '*' => some .star
  | '-' => some .minus
  | '+' => some .plus
  | '%' | '^' | '~' => some .operator
  | _ => none

/-- The longest lexeme that starts with `c`, `cs` being the text behind it. -/
def lexeme (before : Option Token) (c : Char) (cs : List Char) : Lexeme × Nat :=
  if isBlank c then (.gap, prefixLength isBlank cs)
  else if isWordStart c then (.token .word, prefixLength isWordPart cs)
  else if c.isDigit then (.token .number, numberLength c cs)
  else match c with
    | '/' => slash before cs
    | '"' | '\'' => quoted .string c cs
    | '`' => quoted .template c cs
    | '#' =>
      match cs with
      | d :: _ =>
        if isWordStart d then (.token .word, prefixLength isWordPart cs) else (.token .stray, 0)
      | [] => (.token .stray, 0)
    | '.' =>
      match cs with
      | '.' :: '.' :: _ => (.token .ellipsis, 2)
      | d :: _ => if d.isDigit then (.token .number, fractionLength cs) else (.token .dot, 0)
      | [] => (.token .dot, 0)
    | '=' =>
      match cs with
      | '>' :: _ => (.token .arrow, 1)
      | _ => (.token .equals, 0)
    | _ =>
      match mark? c with
      | some kind => (.token kind, 0)
      | none => (.token .stray, 0)

/-- Reads tokens from `cs`, whose first `skip` characters belong to a lexeme that is already
accounted for. `before` is the last token, `gap` what followed it, and `offset` the position behind
both. -/
def scan (before : Option Token) (gap : List Char) (offset : Nat) : Nat → List Char → List Token
  | _, [] => [⟨.endOfFile, String.ofList gap, "", offset⟩]
  | skip + 1, _ :: cs => scan before gap offset skip cs
  | 0, c :: cs =>
    let (lexeme, length) := lexeme before c cs
    let text := c :: cs.take length
    match lexeme with
    | .gap => scan before (gap ++ text) (offset + Text.byteLength text) length cs
    | .token kind =>
      let token : Token := ⟨kind, String.ofList gap, String.ofList text, offset⟩
      token :: scan (some token) [] (offset + Text.byteLength text) length cs

end Lexer

def lex (source : String) : List Token := Lexer.scan none [] 0 0 source.toList

end HandlerWeave.Source
