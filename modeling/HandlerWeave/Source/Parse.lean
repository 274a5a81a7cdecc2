import HandlerWeave.Source.Grammar.Statements
import HandlerWeave.Source.Lexer
import HandlerWeave.Text.Position

/-!
From text to items.
-/
namespace HandlerWeave.Source

def parse (source : String) : Except SyntaxError (List Item) := parseTokens (lex source)

def SyntaxError.position (e : SyntaxError) (source : String) : Text.Position :=
  Text.Position.ofOffset source e.offset

end HandlerWeave.Source
