import HandlerWeave.Source.Token
import HandlerWeave.Text.Letters

/-!
A place between two tokens. What lies ahead never includes the token that ends the file; that one
is what a look past the last token finds.
-/
namespace HandlerWeave.Source

structure Cursor where
  before : Option Token
  ahead : List Token
  final : Token

namespace Cursor

def ofTokens (tokens : List Token) : Cursor :=
  ⟨none, tokens.dropLast, tokens.getLastD default⟩

def tokenAt (c : Cursor) (n : Nat) : Token := (c.ahead[n]?).getD c.final

def token (c : Cursor) : Token := c.tokenAt 0

def kindAhead (c : Cursor) (n : Nat) : Token.Kind := (c.tokenAt n).kind

def kind (c : Cursor) : Token.Kind := c.kindAhead 0

def text (c : Cursor) : String := c.token.text

def check (c : Cursor) (kind : Token.Kind) : Bool := c.kind == kind

def wordAt (c : Cursor) (n : Nat) (word : String) : Bool := (c.tokenAt n).isWord word

def seesWord (c : Cursor) (word : String) : Bool := c.wordAt 0 word

def seesAnyWord (c : Cursor) (words : List String) : Bool := words.any c.seesWord

def newlineBefore (c : Cursor) : Bool := c.token.newlineBefore

def advance (c : Cursor) : Cursor :=
  match c.ahead with
  | [] => c
  | t :: rest => ⟨some t, rest, c.final⟩

def advanceBy (c : Cursor) : Nat → Cursor
  | 0 => c
  | n + 1 => c.advance.advanceBy n

/-- The source text between `start` and a later place, without the gap in front and white space at
the ends. -/
def textSince (start c : Cursor) : String :=
  match start.ahead.take (start.ahead.length - c.ahead.length) with
  | [] => ""
  | t :: rest => Text.trim (t.text ++ String.join (rest.map Token.spelled))

/-- The token at `n` can start the name of a member. -/
def nameStartsAt (c : Cursor) (n : Nat) : Bool :=
  [.word, .string, .number, .leftBracket, .star].contains (c.kindAhead n)

/-- A line break stands here, behind the end of an operand and before a word that cannot continue
it. -/
def atStatementBreak (c : Cursor) : Bool :=
  c.newlineBefore && (c.check .word || c.check .atSign) &&
    match c.before with
    | some t =>
      [.word, .string, .number, .template, .regex, .rightParen, .rightBracket, .rightBrace].contains
        t.kind
    | none => false

end Cursor

end HandlerWeave.Source
