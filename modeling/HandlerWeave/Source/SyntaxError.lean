/-!
Why a source text is no module, and where.
-/
namespace HandlerWeave.Source

/-- What stood in the place of something else. -/
inductive Found
  | endOfFile
  | stray (text : String)
  | token (text : String)
deriving DecidableEq, Repr

def Found.message : Found → String
  | endOfFile => "end of file"
  | stray text => "unexpected character `" ++ text ++ "`"
  | token text => "`" ++ text ++ "`"

namespace SyntaxError

inductive Cause
  | expected (what : String) (found : Found)
  | mismatchedBracket (found : Found)
  | unexpectedBracket (found : Found)
  | unterminatedClass (name : String) (found : Found)
  | unterminatedType (found : Found)
  | unclosedBracket
  | noBracket
  /-- The text nests deeper than it has tokens. -/
  | tooDeep
deriving DecidableEq, Repr

def Cause.message : Cause → String
  | expected what found => "expected " ++ what ++ ", found " ++ found.message
  | mismatchedBracket found => "mismatched closing bracket, found " ++ found.message
  | unexpectedBracket found => "unexpected closing bracket, found " ++ found.message
  | unterminatedClass name found =>
    "unterminated body of class `" ++ name ++ "`, found " ++ found.message
  | unterminatedType found => "unterminated type body, found " ++ found.message
  | unclosedBracket => "unclosed bracket"
  | noBracket => "expected an opening bracket"
  | tooDeep => "nesting too deep"

end SyntaxError

structure SyntaxError where
  cause : SyntaxError.Cause
  /-- Counted in UTF-8 bytes. -/
  offset : Nat
deriving DecidableEq, Repr

def SyntaxError.message (e : SyntaxError) : String := e.cause.message

end HandlerWeave.Source
