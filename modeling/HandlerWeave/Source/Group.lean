import HandlerWeave.Source.Token

/-!
Bracketed groups in a token list. One scan finds the token that closes a group by counting brackets
of any kind; the other skips a group and insists that every bracket is closed by its own kind.
-/
namespace HandlerWeave.Source

namespace Token.Kind

/-- The kind that closes an opening bracket. -/
def closing? : Kind → Option Kind
  | .leftParen => some .rightParen
  | .leftBracket => some .rightBracket
  | .leftBrace => some .rightBrace
  | _ => none

def isClosing (kind : Kind) : Bool :=
  kind == .rightParen || kind == .rightBracket || kind == .rightBrace

end Token.Kind

namespace Group

/-- The index of the first token that brings `depth` open brackets down to none. -/
def closingIndex? (depth : Nat) : List Token → Option Nat
  | [] => none
  | t :: ts =>
    if t.kind.closing?.isSome then (closingIndex? (depth + 1) ts).map (· + 1)
    else if t.kind.isClosing then
      match depth with
      | 0 => none
      | 1 => some 0
      | depth + 2 => (closingIndex? (depth + 1) ts).map (· + 1)
    else (closingIndex? depth ts).map (· + 1)

inductive Fault
  /-- The token at `index` closes another kind of bracket than the one open. -/
  | mismatched (index : Nat)
  | unclosed
deriving DecidableEq, Repr

def Fault.later : Fault → Fault
  | mismatched index => mismatched (index + 1)
  | unclosed => unclosed

/-- How many tokens it takes to close the brackets waiting for the kinds in `waiting`, innermost
first. -/
def length (waiting : List Token.Kind) : List Token → Except Fault Nat
  | [] => if waiting.isEmpty then .ok 0 else .error .unclosed
  | t :: ts =>
    match waiting with
    | [] => .ok 0
    | wanted :: outer =>
      let after := match t.kind.closing? with
        | some closer => some (closer :: waiting)
        | none =>
          if t.kind.isClosing then (if t.kind = wanted then some outer else none) else some waiting
      match after with
      | none => .error (.mismatched 0)
      | some waiting =>
        match length waiting ts with
        | .ok n => .ok (n + 1)
        | .error fault => .error fault.later

end Group

end HandlerWeave.Source
