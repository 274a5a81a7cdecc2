import HandlerWeave.Yaml.Chars

/-!
A place in a document, and why a text is none.
-/
namespace HandlerWeave.Yaml

inductive Fault
  | forbiddenCharacter | unexpectedCharacter | unexpectedToken
  | badDirective | badTag | undefinedTag | badAnchor | unknownAlias
  | badEscape | badBlockHeader | tabInIndentation | unterminatedScalar
  | misplacedEntry | missingColon
  | severalDocuments
  /-- A value that its tag does not fit. -/
  | unfitValue
  | integerTooWide
  | duplicateKey
  | tooDeep
  | tooManyAliases
deriving DecidableEq, Repr

def Fault.message : Fault → String
  | forbiddenCharacter => "control characters are not allowed"
  | unexpectedCharacter => "found character that cannot start any token"
  | unexpectedToken => "did not find expected node content"
  | badDirective => "malformed directive"
  | badTag => "malformed tag"
  | undefinedTag => "found undefined tag handle"
  | badAnchor => "did not find expected alphabetic or numeric character"
  | unknownAlias => "unknown anchor"
  | badEscape => "found unknown escape character"
  | badBlockHeader => "did not find expected comment or line break"
  | tabInIndentation => "found a tab character where an indentation space is expected"
  | unterminatedScalar => "found unexpected end of stream"
  | misplacedEntry => "block entries are not allowed in this context"
  | missingColon => "could not find expected ':'"
  | severalDocuments => "more than one document"
  | unfitValue => "invalid value for its tag"
  | integerTooWide => "integer out of range"
  | duplicateKey => "duplicate entry"
  | tooDeep => "recursion limit exceeded"
  | tooManyAliases => "repetition limit exceeded"

structure Spot where
  rest : List Char
  /-- How many characters are behind. -/
  index : Nat
  line : Nat
  column : Nat
deriving Repr

namespace Spot

def start (text : String) : Spot := ⟨text.toList, 0, 0, 0⟩

def peek (s : Spot) : Option Char := s.rest.head?

def peekAt (s : Spot) (n : Nat) : Option Char := s.rest[n]?

def check (s : Spot) (c : Char) : Bool := s.peek == some c

def any (s : Spot) (p : Char → Bool) : Bool := s.peek.any p

def atEnd (s : Spot) : Bool := s.rest.isEmpty

/-- A blank, a break or the end comes next. -/
def atWordEnd (s : Spot) : Bool := endsWord s.peek

def atLineEnd (s : Spot) : Bool := s.atEnd || s.any isBreak

/-- Goes over a character in the line. -/
def skip (s : Spot) : Spot := ⟨s.rest.drop 1, s.index + 1, s.line, s.column + 1⟩

def skipBy (s : Spot) (n : Nat) : Spot := ⟨s.rest.drop n, s.index + n, s.line, s.column + n⟩

/-- Goes over a line break, two characters together where they make one. -/
def skipBreak (s : Spot) : Spot :=
  match s.rest with
  | '\r' :: '\n' :: rest => ⟨rest, s.index + 2, s.line + 1, 0⟩
  | _ :: rest => ⟨rest, s.index + 1, s.line + 1, 0⟩
  | [] => s

/-- What a line break adds to a text. -/
def breakText (s : Spot) : List Char :=
  match s.peek with
  | some c => if c == '\u2028' || c == '\u2029' then [c] else if isBreak c then ['\n'] else []
  | none => []

def skipWhile (s : Spot) (p : Char → Bool) : Spot := s.skipBy (s.rest.takeWhile p).length

/-- A line that marks the start or the end of a document. -/
def atDocumentMark (s : Spot) : Bool :=
  s.column == 0 &&
    match s.rest with
    | '-' :: '-' :: '-' :: rest => endsWord rest.head?
    | '.' :: '.' :: '.' :: rest => endsWord rest.head?
    | _ => false

/-- A bound for loops that go over a character each time. -/
def bound (s : Spot) : Nat := s.rest.length + 1

end Spot

end HandlerWeave.Yaml
