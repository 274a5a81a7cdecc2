import HandlerWeave.Yaml.Tag

/-!
The text of scalars: block scalars under an indicator, quoted scalars, and plain ones. A line break
between two words of a quoted or plain scalar folds into a blank; of more breaks all but the first
are kept.
-/
namespace HandlerWeave.Yaml

/-- Blanks and breaks between two words. -/
structure Fold where
  blanks : List Char := []
  /-- A line break was met. -/
  broken : Bool := false
  first : List Char := []
  others : List Char := []

/-- What stands between the two words in the scalar's text. -/
def Fold.text (f : Fold) : List Char :=
  if !f.broken then f.blanks
  else if f.first = ['\n'] then (if f.others.isEmpty then [' '] else f.others)
  else f.first ++ f.others

/-- Reads blanks and breaks. Within an indentation of `margin` no tab may stand. -/
def readFold (margin : Nat) : Nat → Fold → Spot → Except Fault (Fold × Spot)
  | 0, f, s => .ok (f, s)
  | rounds + 1, f, s =>
    match s.peek with
    | none => .ok (f, s)
    | some c =>
      if isBlank c then
        if f.broken && s.column < margin && c == '\t' then .error .tabInIndentation
        else if f.broken then readFold margin rounds f s.skip
        else readFold margin rounds { f with blanks := f.blanks ++ [c] } s.skip
      else if isBreak c then
        let f := if f.broken then { f with others := f.others ++ s.breakText }
          else { f with blanks := [], broken := true, first := s.breakText }
        readFold margin rounds f s.skipBreak
      else .ok (f, s)

def flowMarks : List Char := [',', '[', ']', '\x7b', '\x7d']

/-- The next word of a plain scalar. In brackets it ends at their marks, and no colon may stand
right before one. -/
def plainWord (inFlow : Bool) : List Char → Except Fault (List Char)
  | [] => .ok []
  | c :: cs =>
    if endsWord (some c) then .ok []
    else if inFlow && c == ':' && cs.head?.any (fun d => d == '?' || flowMarks.contains d) then
      .error .unexpectedCharacter
    else if (c == ':' && endsWord cs.head?) || (inFlow && flowMarks.contains c) then .ok []
    else (plainWord inFlow cs).map (c :: ·)

/-- Reads a plain scalar, and says whether it ended at the start of another line. `margin` is the
least column its lines may start at outside brackets. -/
def plainScalar (inFlow : Bool) (margin : Nat) :
    Nat → List Char → Fold → Spot → Except Fault (List Char × Bool × Spot)
  | 0, text, f, s => .ok (text, f.broken, s)
  | rounds + 1, text, f, s =>
    if s.atDocumentMark || s.check '#' then .ok (text, f.broken, s)
    else
      match plainWord inFlow s.rest with
      | .error e => .error e
      | .ok word =>
        let text := if word.isEmpty then text else text ++ f.text ++ word
        let f := if word.isEmpty then f else {}
        let s := s.skipBy word.length
        if s.any fun c => isBlank c || isBreak c then
          match readFold margin s.bound f s with
          | .error e => .error e
          | .ok (f, s) =>
            if !inFlow && s.column < margin then .ok (text, f.broken, s)
            else plainScalar inFlow margin rounds text f s
        else .ok (text, f.broken, s)

/-- The character with the number given by the first `width` of `cs`. -/
def hexChar? (width : Nat) (cs : List Char) : Option Char :=
  let digits := cs.take width
  if digits.length < width then none
  else match digits.mapM hexValue? with
    | none => none
    | some values =>
      let n := values.foldl (fun n d => n * 16 + d) 0
      if n.isValidChar then some (Char.ofNat n) else none

/-- What an escape between double quotes stands for, and its length behind the backslash. -/
def escape? : List Char → Option (Char × Nat)
  | [] => none
  | c :: cs =>
    let hex (width : Nat) := (hexChar? width cs).map fun d => (d, width + 1)
    match c with
    | '0' => some ('\x00', 1)
    | 'a' => some ('\x07', 1)
    | 'b' => some ('\x08', 1)
    | 't' | '\t' => some ('\t', 1)
    | 'n' => some ('\n', 1)
    | 'v' => some ('\x0b', 1)
    | 'f' => some ('\x0c', 1)
    | 'r' => some ('\r', 1)
    | 'e' => some ('\x1b', 1)
    | ' ' => some (' ', 1)
    | '"' => some ('"', 1)
    | '/' => some ('/', 1)
    | '\\' => some ('\\', 1)
    | 'N' => some ('\u0085', 1)
    | '_' => some ('\u00a0', 1)
    | 'L' => some ('\u2028', 1)
    | 'P' => some ('\u2029', 1)
    | 'x' => hex 2
    | 'u' => hex 4
    | 'U' => hex 8
    | _ => none

/-- Reads a word between quotes; `word` is what is read of it, last character first. The last part
of the answer says that a backslash at the end of a line ended it. -/
def quotedWord (single : Bool) :
    Nat → List Char → Spot → Except Fault (List Char × Spot × Bool)
  | 0, word, s => .ok (word.reverse, s, false)
  | rounds + 1, word, s =>
    match s.rest with
    | [] => .ok (word.reverse, s, false)
    | c :: cs =>
      if endsWord (some c) then .ok (word.reverse, s, false)
      else if single then
        if c != '\'' then quotedWord single rounds (c :: word) s.skip
        else if cs.head? == some '\'' then quotedWord single rounds ('\'' :: word) (s.skipBy 2)
        else .ok (word.reverse, s, false)
      else if c == '"' then .ok (word.reverse, s, false)
      else if c != '\\' then quotedWord single rounds (c :: word) s.skip
      else if cs.head?.any isBreak then .ok (word.reverse, s.skip.skipBreak, true)
      else
        match escape? cs with
        | some (d, length) => quotedWord single rounds (d :: word) (s.skipBy (length + 1))
        | none => .error .badEscape

/-- Reads a quoted scalar behind its opening quote. -/
def quotedScalar (single : Bool) :
    Nat → List Char → Spot → Except Fault (List Char × Spot)
  | 0, _, _ => .error .unterminatedScalar
  | rounds + 1, text, s =>
    if s.atDocumentMark || s.atEnd then .error .unterminatedScalar
    else
      match quotedWord single s.bound [] s with
      | .error e => .error e
      | .ok (word, s, escaped) =>
        if s.check (if single then '\'' else '"') then .ok (text ++ word, s.skip)
        else
          match readFold 0 s.bound { broken := escaped } s with
          | .error e => .error e
          | .ok (f, s) => quotedScalar single rounds (text ++ word ++ f.text) s

/-- What becomes of the breaks at the end. -/
inductive Chomping
  | clip | strip | keep
deriving DecidableEq, Repr

def chomping? (c : Option Char) : Option Chomping :=
  if c = some '+' then some .keep else if c = some '-' then some .strip else none

/-- The marks behind the indicator: an indentation and a chomping, in either order. -/
def blockMarks (s : Spot) : Except Fault (Chomping × Nat × Spot) :=
  let digit (s : Spot) : Except Fault (Nat × Spot) :=
    match s.peek with
    | some c =>
      if c == '0' then .error .badBlockHeader
      else if c.isDigit then .ok (c.toNat - '0'.toNat, s.skip) else .ok (0, s)
    | none => .ok (0, s)
  match chomping? s.peek with
  | some chomping => (digit s.skip).map fun (n, s) => (chomping, n, s)
  | none =>
    match digit s with
    | .error e => .error e
    | .ok (n, after) =>
      if n = 0 then .ok (.clip, 0, after)
      else match chomping? after.peek with
        | some chomping => .ok (chomping, n, after.skip)
        | none => .ok (.clip, n, after)

/-- Reads empty lines and the indentation of the line behind them. `indent` is zero while it is not
known; then the deepest of these lines sets it, and at least `least`. -/
def blockBreaks (indent least : Nat) :
    Nat → Nat → List Char → Spot → Except Fault (Nat × List Char × Spot)
  | 0, deepest, breaks, s => .ok (if indent = 0 then max deepest least else indent, breaks, s)
  | rounds + 1, deepest, breaks, s =>
    let blanks := (s.rest.takeWhile (· == ' ')).length
    let s := s.skipBy (if indent = 0 then blanks else min blanks (indent - s.column))
    let deepest := max deepest s.column
    if (indent = 0 || s.column < indent) && s.check '\t' then .error .tabInIndentation
    else if s.any isBreak then
      blockBreaks indent least rounds deepest (breaks ++ s.breakText) s.skipBreak
    else .ok (if indent = 0 then max deepest least else indent, breaks, s)

/-- The lines of a block scalar. `first` is the break behind the last line read, `others` the empty
lines after it, and `blank` says that the last line starts with a blank. -/
def blockLines (literal : Bool) (indent : Nat) :
    Nat → List Char → Bool → List Char → List Char → Spot →
      Except Fault (List Char × List Char × List Char × Spot)
  | 0, text, _, first, others, s => .ok (text, first, others, s)
  | rounds + 1, text, blank, first, others, s =>
    if s.column != indent || s.atEnd then .ok (text, first, others, s)
    else
      let startsBlank := s.any isBlank
      let joined :=
        if !literal && first == ['\n'] && !blank && !startsBlank then
          (if others.isEmpty then [' '] else others)
        else first ++ others
      let line := s.rest.takeWhile fun c => !isBreak c
      let after := s.skipBy line.length
      let first := after.breakText
      match blockBreaks indent 0 after.bound 0 [] after.skipBreak with
      | .error e => .error e
      | .ok (_, others, s) =>
        blockLines literal indent rounds (text ++ joined ++ line) startsBlank first others s

/-- Reads a block scalar behind its indicator. `outer` is the column of the block around it, less
than zero at the top. -/
def blockScalar (literal : Bool) (outer : Int) (s : Spot) : Except Fault (List Char × Spot) := do
  let (chomping, increment, s) ← blockMarks s
  let s := skipToLineEnd s
  unless s.atLineEnd do throw .badBlockHeader
  let s := s.skipBreak
  let wanted := if increment = 0 then 0 else outer.toNat + increment
  let (indent, leading, s) ← blockBreaks wanted (max (outer + 1).toNat 1) s.bound 0 [] s
  let (text, first, others, s) ← blockLines literal indent s.bound [] false [] leading s
  match chomping with
  | .strip => return (text, s)
  | .clip => return (text ++ first, s)
  | .keep => return (text ++ first ++ others, s)

end HandlerWeave.Yaml
