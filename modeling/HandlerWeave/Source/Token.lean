/-!
Tokens of handler sources. Keywords are contextual, so every word is one kind of token and the
grammar compares its text. A token carries the blanks and comments in front of it, so the tokens
of a text, laid end to end, spell the text out again.
-/
namespace HandlerWeave.Source

inductive Token.Kind
  | word | string | template | number
  | leftBrace | rightBrace | leftParen | rightParen | leftBracket | rightBracket | less | greater
  | semicolon | comma | ellipsis | dot | colon | question | arrow | equals | atSign | pipe
  | ampersand | bang | star | minus | plus | operator
  /-- A pattern between slashes, read only where an operand can start. -/
  | regex
  /-- Text that starts no token. It is an error only where the grammar meets it. -/
  | stray
  | endOfFile
deriving DecidableEq, Repr, Inhabited

structure Token where
  kind : Token.Kind
  /-- The blanks and complete comments since the previous token. -/
  gap : String
  text : String
  /-- Where the text starts, counted in UTF-8 bytes. -/
  start : Nat
deriving DecidableEq, Repr, Inhabited

namespace Token

def stop (t : Token) : Nat := t.start + t.text.utf8ByteSize

/-- A line break separates this token from the one before. The end of the file always counts as
standing on a line of its own. -/
def newlineBefore (t : Token) : Bool :=
  t.kind == .endOfFile || t.gap.toList.contains '\n'

def isWord (t : Token) (word : String) : Bool :=
  t.kind == .word && t.text == word

/-- The source text that the token accounts for. -/
def spelled (t : Token) : String := t.gap ++ t.text

end Token

end HandlerWeave.Source
