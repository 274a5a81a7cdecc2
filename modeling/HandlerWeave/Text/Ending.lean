/-!
Endings of texts.
-/
namespace HandlerWeave.Text

/-- The text without `ending`, where it ends so. -/
def dropEnding? (ending text : String) : Option String :=
  let cs := text.toList
  let n := cs.length - ending.length
  if cs.drop n = ending.toList then some (String.ofList (cs.take n)) else none

def endsWith (ending text : String) : Bool := (dropEnding? ending text).isSome

end HandlerWeave.Text
