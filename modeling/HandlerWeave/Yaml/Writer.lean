import HandlerWeave.Decimal.Shortest
import HandlerWeave.Yaml.Chars
import HandlerWeave.Yaml.Plain

/-!
Writing a value as a document in block style: two blanks of indentation, sequences in a mapping not
indented further, lines of any width. Only empty collections are written in brackets.
-/
namespace HandlerWeave.Yaml.Writer

/-- Indicators that no plain scalar may start with. -/
def startIndicators : List Char :=
  ['#', ',', '[', ']', '\x7b', '\x7d', '&', '*', '!', '|', '>', '\'', '"', '%', '@', '`']

/-- A character that would end or change a plain scalar: `before` is the one in front of it. -/
def breaksPlain (before : Option Char) (c : Char) (next : Option Char) : Bool :=
  match before with
  | none =>
    startIndicators.contains c || ((c == '?' || c == ':' || c == '-') && endsWord next)
  | some b => (c == ':' && endsWord next) || (c == '#' && endsWord (some b))

def hasPlainBreak (before : Option Char) : List Char → Bool
  | [] => false
  | c :: cs => breaksPlain before c cs.head? || hasPlainBreak (some c) cs

def startsDocument : List Char → Bool
  | '-' :: '-' :: '-' :: _ => true
  | '.' :: '.' :: '.' :: _ => true
  | _ => false

/-- A character that fits `p` stands right behind one that fits `q`. -/
def hasPair (q p : Char → Bool) : List Char → Bool
  | a :: b :: cs => (q a && p b) || hasPair q p (b :: cs)
  | _ => false

def isSpace (c : Char) : Bool := c == ' '

structure Analysis where
  multiline : Bool
  plain : Bool
  singleQuoted : Bool
  block : Bool

def analyze (cs : List Char) : Analysis :=
  let blankEnd (c : Option Char) : Bool := c.any fun c => isSpace c || isBreak c
  let edges := blankEnd cs.head? || blankEnd cs.getLast?
  let special := cs.any fun c => !isPrintable c
  let spaceBreak := hasPair isSpace isBreak cs
  let breakSpace := hasPair isBreak isSpace cs
  let multiline := cs.any isBreak
  { multiline
    plain := !(edges || multiline || special || startsDocument cs || hasPlainBreak none cs)
    singleQuoted := !(special || spaceBreak || breakSpace)
    block := !(special || spaceBreak || cs.isEmpty || cs.getLast? == some ' ') }

inductive Style
  | plain | singleQuoted | doubleQuoted | literal
deriving DecidableEq, Repr

/-- The style wanted for a string, whatever its place. -/
def wantedStyle (text : String) : Style :=
  if text.toList.contains '\n' then .literal
  else if Plain.isAmbiguous text then .singleQuoted
  else .plain

/-- The style for a text in its place. What a style cannot hold moves on to the next. -/
def chooseStyle (wanted : Style) (simpleKey : Bool) (cs : List Char) : Style :=
  let a := analyze cs
  if simpleKey && a.multiline then .doubleQuoted
  else match wanted with
    | .literal => if a.block && !simpleKey then .literal else .doubleQuoted
    | .plain =>
      if a.plain && !(simpleKey && cs.isEmpty) then .plain
      else if a.singleQuoted then .singleQuoted else .doubleQuoted
    | .singleQuoted => if a.singleQuoted then .singleQuoted else .doubleQuoted
    | .doubleQuoted => .doubleQuoted

/-- The text written so far, last character first, and what the next item has to know of it. -/
structure Page where
  written : List Char
  column : Nat
  /-- A blank, or nothing, stands right before. -/
  spaced : Bool
  /-- Only indentation and indicators stand on this line. -/
  fresh : Bool

namespace Page

def blank : Page := ⟨[], 0, true, true⟩

def put (p : Page) (c : Char) : Page :=
  { p with
    written := c :: p.written
    column := if isBreak c then 0 else p.column + 1 }

def putAll (p : Page) (cs : List Char) : Page := cs.foldl put p

def padTo (p : Page) (column : Nat) : Page := p.putAll (List.replicate (column - p.column) ' ')

/-- Goes to a line's indentation: on this line if nothing but indicators stands before it. -/
def newLine (p : Page) (indent : Nat) : Page :=
  let away := !p.fresh || p.column > indent || (p.column == indent && !p.spaced)
  let p := if away then p.put '\n' else p
  { p.padTo indent with spaced := true, fresh := true }

def space (p : Page) : Page := if p.spaced then p else p.put ' '

/-- An indicator that begins an item. -/
def indicator (p : Page) (text : String) : Page :=
  { p.space.putAll text.toList with spaced := false, fresh := p.fresh }

/-- Text that ends what may follow on the same line as indentation. -/
def word (p : Page) (cs : List Char) : Page :=
  { p.putAll cs with spaced := false, fresh := false }

end Page

/-- A break in quoted text is followed by the indentation of the next line. -/
def singleQuotedBody (indent : Nat) (broken : Bool) : List Char → Page → Page
  | [], p => if broken then p.newLine indent else p
  | c :: cs, p =>
    if isBreak c then
      let p := if !broken && c == '\n' then p.put '\n' else p
      singleQuotedBody indent true cs { p.put c with fresh := true }
    else if c == ' ' then singleQuotedBody indent broken cs (p.put c)
    else
      let p := if broken then p.newLine indent else p
      let p := if c == '\'' then p.put c else p
      singleQuotedBody indent false cs { p.put c with fresh := false }

def hexDigits (width n : Nat) : List Char :=
  let digits := (Nat.toDigits 16 n).map Char.toUpper
  List.replicate (width - digits.length) '0' ++ digits

def escaped (c : Char) : List Char :=
  if isPrintable c && !isBreak c && c != '"' && c != '\\' then [c]
  else '\\' :: match c with
    | '\x00' => ['0']
    | '\x07' => ['a']
    | '\x08' => ['b']
    | '\t' => ['t']
    | '\n' => ['n']
    | '\x0b' => ['v']
    | '\x0c' => ['f']
    | '\r' => ['r']
    | '\x1b' => ['e']
    | '"' => ['"']
    | '\\' => ['\\']
    | '\u0085' => ['N']
    | '\u00a0' => ['_']
    | '\u2028' => ['L']
    | '\u2029' => ['P']
    | c =>
      let n := c.toNat
      if n ≤ 0xff then 'x' :: hexDigits 2 n
      else if n ≤ 0xffff then 'u' :: hexDigits 4 n
      else 'U' :: hexDigits 8 n

/-- A mark for the indentation when the text starts with a blank or a break, then one for what
becomes of the breaks at its end. -/
def literalHints (cs : List Char) : List Char :=
  let indentation := if cs.head?.any fun c => isSpace c || isBreak c then ['2'] else []
  let ending := match cs.reverse with
    | [] => ['-']
    | [c] => if isBreak c then ['+'] else ['-']
    | c :: d :: _ => if !isBreak c then ['-'] else if isBreak d then ['+'] else []
  indentation ++ ending

def literalBody (indent : Nat) (broken : Bool) : List Char → Page → Page
  | [], p => p
  | c :: cs, p =>
    if isBreak c then literalBody indent true cs { p.put c with fresh := true }
    else
      let p := if broken then p.newLine indent else p
      literalBody indent false cs { p.put c with fresh := false }

def scalar (style : Style) (indent : Nat) (cs : List Char) (p : Page) : Page :=
  match style with
  | .plain => (if cs.isEmpty then p else p.space).word cs
  | .singleQuoted => (singleQuotedBody indent false cs (p.space.word ['\''])).word ['\'']
  | .doubleQuoted => p.space.word ('"' :: cs.flatMap escaped ++ ['"'])
  | .literal =>
    let p := p.space.putAll ('|' :: literalHints cs)
    literalBody indent true cs { p.put '\n' with spaced := true, fresh := true }

def isTagChar (c : Char) : Bool :=
  c.isAlphanum ||
    ['-', '_', ';', '/', '?', ':', '@', '&', '=', '+', '$', ',', '.', '~', '*', '\'', '(', ')', '[',
      ']'].contains c

/-- A tag's name, with percent signs for what may not stand in it. -/
def tagText (tag : String) : List Char :=
  tag.toList.flatMap fun c =>
    if isTagChar c then [c]
    else (String.singleton c).toUTF8.toList.flatMap fun b => '%' :: hexDigits 2 b.toNat

def tagMark (tag : String) : List Char :=
  if tag = "!" then "!<%21>".toList else '!' :: tagText tag

def numberText : Number → String
  | .int n => toString n
  | .float f =>
    if f.isNaN then ".nan"
    else if f.isInf then (if f > 0 then ".inf" else "-.inf")
    else Decimal.text f

/-- The text of a scalar and the style it asks for. -/
def scalarText? : Yaml → Option (Style × String)
  | .null => some (.plain, "null")
  | .bool b => some (.plain, if b then "true" else "false")
  | .number n => some (.plain, numberText n)
  | .string s => some (wantedStyle s, s)
  | _ => none

/-- A key that fits on the line of its value: on one line itself, and not long. -/
def isSimpleKey (key : Yaml) : Bool :=
  let fits (tag : Nat) (value : Yaml) : Bool :=
    match value with
    | .sequence items => items.isEmpty && tag ≤ 128
    | .mapping entries => entries.isEmpty && tag ≤ 128
    | value =>
      match scalarText? value with
      | some (_, text) => !(analyze text.toList).multiline && tag + text.utf8ByteSize ≤ 128
      | none => false
  match key with
  | .tagged tag value => fits (1 + tag.utf8ByteSize) value
  | value => fits 0 value

/-- Where a node stands. -/
inductive Place
  | root
  | item
  | value
  | simpleKey
deriving DecidableEq, Repr

/-- One level further in; the root starts at the margin. -/
def deeper : Option Nat → Nat
  | none => 0
  | some indent => indent + 2

def Page.tag (p : Page) : Option String → Page
  | none => p
  | some tag => p.space.word (tagMark tag)

def leaf (tag : Option String) (place : Place) (indent : Option Nat) (wanted : Style)
    (text : String) (p : Page) : Page :=
  let cs := text.toList
  scalar (chooseStyle wanted (place == .simpleKey) cs) ((indent.getD 0) + 2) cs (p.tag tag)

mutual

def node (tag : Option String) (place : Place) (indent : Option Nat) : Yaml → Page → Page
  | .tagged tag value, p => node (some tag) place indent value p
  | .sequence items, p =>
    let p := p.tag tag
    if items.isEmpty then p.space.word ['[', ']']
    else
      let inner := if place == .value && !p.fresh then indent.getD 0 else deeper indent
      sequenceItems inner items p
  | .mapping entries, p =>
    let p := p.tag tag
    if entries.isEmpty then p.space.word ['\x7b', '\x7d']
    else mappingEntries (deeper indent) entries p
  | .null, p => leaf tag place indent .plain "null" p
  | .bool b, p => leaf tag place indent .plain (if b then "true" else "false") p
  | .number n, p => leaf tag place indent .plain (numberText n) p
  | .string s, p => leaf tag place indent (wantedStyle s) s p

def sequenceItems (indent : Nat) : List Yaml → Page → Page
  | [], p => p
  | value :: rest, p =>
    let p := (p.newLine indent).indicator "-"
    sequenceItems indent rest (node none .item (some indent) value p)

def mappingEntries (indent : Nat) : List (Yaml × Yaml) → Page → Page
  | [], p => p
  | (key, value) :: rest, p =>
    let p := p.newLine indent
    let p :=
      if isSimpleKey key then (node none .simpleKey (some indent) key p).word [':']
      else
        let p := node none .value (some indent) key (p.indicator "?")
        (p.newLine indent).indicator ":"
    mappingEntries indent rest (node none .value (some indent) value p)

end

def document (value : Yaml) : Page := (node none .root none value Page.blank).newLine 0

end HandlerWeave.Yaml.Writer

namespace HandlerWeave.Yaml

def write (value : Yaml) : String := String.ofList (Writer.document value).written.reverse

end HandlerWeave.Yaml
