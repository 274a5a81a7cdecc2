/-!
Byte offsets in a text, and their lines and columns. Lines and columns count from one, and columns
count bytes, so a line and a column together determine the offset.
-/
namespace HandlerWeave.Text

def byteLength : List Char → Nat
  | [] => 0
  | c :: cs => c.utf8Size + byteLength cs

structure Position where
  line : Nat
  column : Nat
deriving DecidableEq, Repr

namespace Position

/-- Moves over `cs` until `offset` bytes are behind or the text ends. -/
def walk (here : Position) : List Char → Nat → Position
  | [], _ => here
  | c :: cs, offset =>
    if offset < c.utf8Size then { here with column := here.column + offset }
    else if c = '\n' then walk ⟨here.line + 1, 1⟩ cs (offset - c.utf8Size)
    else walk { here with column := here.column + c.utf8Size } cs (offset - c.utf8Size)

def ofOffset (text : String) (offset : Nat) : Position := walk ⟨1, 1⟩ text.toList offset

end Position

end HandlerWeave.Text
