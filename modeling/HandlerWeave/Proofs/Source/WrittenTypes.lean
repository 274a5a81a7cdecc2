import HandlerWeave.Proofs.Source.Binding
import HandlerWeave.Proofs.Source.Joined

/-!
Types as they are written. The marks of a type stand anywhere on their lines; names may have
qualifiers, the elements of tuples labels and marks of their own, lists a last comma, and what sets
the members of a shape apart is a semicolon, a comma or a line break.
-/
namespace HandlerWeave.Source

open Mark

/-- A mark of one kind, wherever it stands on its line. -/
abbrev MarkOf (kind : Token.Kind) : Type := { m : Mark // m.kind = kind }

def someMark {kind : Token.Kind} (m : Option (MarkOf kind)) : List Mark :=
  m.toList.map Subtype.val

/-- What a type is written as. -/
structure Phrase where
  marks : List Mark
  type : TypeNode
  /-- The marks that are left when labels, qualifiers and last commas go, the names of members are
  quoted only where they have to be and each member ends with a semicolon. Those that make an
  element of a tuple optional, or the rest of it, are kept or not. -/
  plain : Bool → List Mark

structure Label where
  name : MarkOf .word
  optional : Option (MarkOf .question)
  colon : MarkOf .colon

def Label.marks (l : Label) : List Mark := l.name.1 :: (someMark l.optional ++ [l.colon.1])

/-- An element of a tuple. -/
structure Element where
  rest : Option (MarkOf .ellipsis)
  label : Option Label
  phrase : Phrase
  optional : Option (MarkOf .question)

namespace Element

def isOptional (e : Element) : Bool :=
  e.optional.isSome || e.label.any fun l => l.optional.isSome

def marks (e : Element) : List Mark :=
  someMark e.rest ++ (e.label.elim [] Label.marks ++ (e.phrase.marks ++ someMark e.optional))

def plain (keep : Bool) (e : Element) : List Mark :=
  (if keep && e.rest.isSome then [⟨.ellipsis, "...", false⟩] else []) ++
    (e.phrase.plain keep ++ optionalMarks (keep && e.isOptional))

end Element

/-- What the name of a member is read as. -/
def nameText (m : Mark) : String := if m.kind = .string then Text.unquote m.text else m.text

/-- A property with a type, or an index signature. -/
inductive MemberPhrase
  | property (name : Mark) (hname : name.kind ∈ [.word, .string, .number])
      (optional : Option (MarkOf .question)) (colon : MarkOf .colon) (phrase : Phrase)
  | index (opener : MarkOf .leftBracket) (key : MarkOf .word) (keyColon : MarkOf .colon)
      (keyPhrase : Phrase) (closer : MarkOf .rightBracket) (colon : MarkOf .colon)
      (phrase : Phrase)

namespace MemberPhrase

def phrases : MemberPhrase → List Phrase
  | property _ _ _ _ phrase => [phrase]
  | index _ _ _ keyPhrase _ _ phrase => [keyPhrase, phrase]

/-- The type that the member ends with. -/
def value : MemberPhrase → Phrase
  | property _ _ _ _ phrase => phrase
  | index _ _ _ _ _ _ phrase => phrase

def marks : MemberPhrase → List Mark
  | property name _ optional colon phrase =>
    name :: (someMark optional ++ colon.1 :: phrase.marks)
  | index opener key keyColon keyPhrase closer colon phrase =>
    opener.1 :: key.1 :: keyColon.1 :: (keyPhrase.marks ++ closer.1 :: colon.1 :: phrase.marks)

def member : MemberPhrase → TypeMember
  | property name _ optional _ phrase =>
    .property (nameText name) optional.isSome (some phrase.type)
  | index _ key _ keyPhrase _ _ phrase => .index key.1.text keyPhrase.type phrase.type

def plain (keep : Bool) : MemberPhrase → List Mark
  | property name _ optional _ phrase =>
    nameMark (nameText name) :: (optionalMarks optional.isSome ++ sign ':' ::
      (phrase.plain keep ++ [sign ';']))
  | index _ key _ keyPhrase _ _ phrase =>
    sign '[' :: name key.1.text :: sign ':' :: (keyPhrase.plain keep ++
      sign ']' :: sign ':' :: (phrase.plain keep ++ [sign ';']))

end MemberPhrase

/-- On a new line too the word is read as part of the type in front of it. -/
def RunsInto (ms : List Mark) (m : Mark) : Prop :=
  m.isWord "extends" = true ∨ m.isWord "new" = true ∧ ∃ a, ms = [a] ∧ a.isWord "abstract" = true

/-- The marks between the braces of a shape. -/
inductive Members : List Mark → List MemberPhrase → Prop
  | nil : Members [] []
  | separator {m : Mark} {ms : List Mark} {members : List MemberPhrase}
      (hm : m.kind ∈ [.semicolon, .comma]) (h : Members ms members) : Members (m :: ms) members
  | cons {member : MemberPhrase} {ms : List Mark} {members : List MemberPhrase}
      (hend : ∀ m ∈ ms.head?, m.kind ∈ [.semicolon, .comma] ∨
        m.line = true ∧ ¬ RunsInto member.value.marks m)
      (h : Members ms members) : Members (member.marks ++ ms) (member :: members)

/-- A name with the qualifiers in front of it. On its own it is no keyword, and it does not start
with a word that is read in another way. -/
structure IsPath (ms : List Mark) (qualifiers : List String) (w : String) : Prop where
  joined : Joined .dot (fun ns v => ∃ line, ns = [(name v).onLine line]) ms (qualifiers ++ [w])
  word : IsWord w
  first : ∀ v ∈ (qualifiers ++ [w]).head?, v ∉ "true" :: "false" :: reservedNames
  keyword : qualifiers = [] → Keyword.ofText? w = none

/-- An operand may have brackets behind it, a part may stand between bars. -/
inductive Level
  | operand
  | part
  | whole

/-- The types made of keywords, literals, names, lists of types and shapes that hold data, with no
line break in a string or a name. The names in `scope` are type parameters, which take no
arguments. -/
inductive Written (scope : List String) : Level → Phrase → Prop
  | keyword (word : Keyword) (line : Bool) : Written scope .operand
      ⟨[(name word.text).onLine line], .keyword word, fun _ => [name word.text]⟩
  | bool (value : Bool) (line : Bool) : Written scope .operand
      ⟨[(name (if value then "true" else "false")).onLine line], .literal (.bool value),
        fun _ => [name (if value then "true" else "false")]⟩
  | string (m : MarkOf .string) (h : '\n' ∉ (Text.unquote m.1.text).toList) :
      Written scope .operand ⟨[m.1], .literal (.string (Text.unquote m.1.text)),
        fun _ => [⟨.string, Text.quote (Text.unquote m.1.text), false⟩]⟩
  | number (m : MarkOf .number) (h : IsNumeral m.1.text) :
      Written scope .operand ⟨[m.1], .literal (.number m.1.text),
        fun _ => [⟨.number, m.1.text, false⟩]⟩
  | negative (minus : MarkOf .minus) (m : MarkOf .number) (h : IsNumeral m.1.text) :
      Written scope .operand ⟨[minus.1, m.1], .literal (.number ("-" ++ m.1.text)),
        fun _ => [sign '-', ⟨.number, m.1.text, false⟩]⟩
  | reference {ms : List Mark} {qualifiers : List String} {w : String}
      (h : IsPath ms qualifiers w) : Written scope .operand
      ⟨ms, .reference ⟨qualifiers.head?, w⟩ [], fun _ => [name w]⟩
  | applied {ms ns : List Mark} {qualifiers : List String} {w : String} {args : List Phrase}
      (h : IsPath ms qualifiers w) (hscope : qualifiers = [] → w ∉ scope)
      (opener : MarkOf .less) (closer : MarkOf .greater) (hne : args ≠ [])
      (hargs : Listed (fun ks p => ks = p.marks) ns args)
      (hall : ∀ p ∈ args, Written scope .whole p) : Written scope .operand
      ⟨ms ++ opener.1 :: (ns ++ [closer.1]),
        .reference ⟨qualifiers.head?, w⟩ (args.map Phrase.type),
        fun keep => name w :: sign '<' ::
          (separatedMarks (sign ',') (args.map fun p => p.plain keep) ++ [sign '>'])⟩
  | array {p : Phrase} (h : Written scope .operand p) (opener : MarkOf .leftBracket)
      (hline : opener.1.line = false) (closer : MarkOf .rightBracket) : Written scope .operand
      ⟨p.marks ++ [opener.1, closer.1], .array p.type,
        fun keep => p.plain keep ++ [sign '[', sign ']']⟩
  | tuple {ms : List Mark} {elements : List Element} (opener : MarkOf .leftBracket)
      (closer : MarkOf .rightBracket) (hlist : Listed (fun ks e => ks = e.marks) ms elements)
      (hall : ∀ e ∈ elements, Written scope .whole e.phrase) : Written scope .operand
      ⟨opener.1 :: (ms ++ [closer.1]), .tuple (elements.map fun e => e.phrase.type),
        fun keep => sign '[' ::
          (separatedMarks (sign ',') (elements.map (Element.plain keep)) ++ [sign ']'])⟩
  | parenthesized {p : Phrase} (opener : MarkOf .leftParen) (closer : MarkOf .rightParen)
      (h : Written scope .whole p) : Written scope .operand
      ⟨opener.1 :: (p.marks ++ [closer.1]), .parenthesized p.type,
        fun keep => sign '(' :: (p.plain keep ++ [sign ')'])⟩
  | shape {ms : List Mark} {members : List MemberPhrase} (opener : MarkOf .leftBrace)
      (closer : MarkOf .rightBrace) (hbody : Members ms members)
      (hplain : ∀ m ∈ members, m.member.Plain)
      (hall : ∀ m ∈ members, ∀ p ∈ m.phrases, Written scope .whole p) :
      Written scope .operand
      ⟨opener.1 :: (ms ++ [closer.1]), .shape (members.map MemberPhrase.member),
        fun keep => sign '\x7b' ::
          ((members.map (MemberPhrase.plain keep)).flatten ++ [sign '\x7d'])⟩
  | operand {p : Phrase} (h : Written scope .operand p) : Written scope .part p
  | intersection {ms : List Mark} {parts : List Phrase} (hlength : 2 ≤ parts.length)
      (hjoined : Joined .ampersand (fun ks p => ks = p.marks) ms parts)
      (hall : ∀ p ∈ parts, Written scope .operand p) : Written scope .part
      ⟨ms, .intersection (parts.map Phrase.type),
        fun keep => separatedMarks (sign '&') (parts.map fun p => p.plain keep)⟩
  | part {p : Phrase} (h : Written scope .part p) : Written scope .whole p
  | union {ms : List Mark} {arms : List Phrase} (hlength : 2 ≤ arms.length)
      (hjoined : Joined .pipe (fun ks p => ks = p.marks) ms arms)
      (hall : ∀ p ∈ arms, Written scope .part p) : Written scope .whole
      ⟨ms, .union (arms.map Phrase.type),
        fun keep => separatedMarks (sign '|') (arms.map fun p => p.plain keep)⟩

variable {scope : List String} {level : Level} {p : Phrase} {m : Mark} {ms ns rest all : List Mark}
  {qualifiers : List String} {w : String} {kind separator : Token.Kind}

/-- The kinds of marks behind the first name of a type in the type itself. -/
def nameSequels : List Token.Kind := [.dot, .less, .leftBracket, .ampersand, .pipe]

/-- The marks start with `m`, which starts a type, and go on with `ms`. -/
structure Begins (all : List Mark) (m : Mark) (ms : List Mark) : Prop where
  eq : all = m :: ms
  starts : m.StartsType
  next : m.kind = .word → ms = [] ∨ (markAt ms 0).kind ∈ nameSequels

theorem Begins.append (h : Begins all m ms) (hrest : (markAt rest 0).kind ∈ nameSequels) :
    Begins (all ++ rest) m (ms ++ rest) := by
  refine ⟨by rw [h.eq, List.cons_append], h.starts, fun hword => .inr ?_⟩
  obtain rfl | hnext := h.next hword
  · exact hrest
  · cases ms with
    | nil => exact absurd hnext (by decide)
    | cons m ms => exact hnext

/-- With no word in front, nothing is to be said of what follows. -/
theorem Begins.of_kind
    (hkind : m.kind ∈ [.string, .number, .minus, .leftParen, .leftBracket, .leftBrace]) :
    Begins (m :: ms) m ms := by
  have hne : m.kind ≠ .word := by
    intro h
    rw [h] at hkind
    exact absurd hkind (by decide)
  exact ⟨rfl, ⟨List.mem_cons_of_mem _ hkind, fun v _ => by simp [Mark.isWord, hne]⟩,
    fun h => absurd h hne⟩

theorem Begins.of_name {line : Bool} (hw : w ∉ reservedNames) :
    Begins [(name w).onLine line] ((name w).onLine line) [] := by
  refine ⟨rfl, ⟨by simp, fun v hv => ?_⟩, fun _ => .inl rfl⟩
  have hne : w ≠ v := by
    rintro rfl
    exact hw hv
  simpa [Mark.isWord] using hne

theorem IsPath.begins (h : IsPath ms qualifiers w) : ∃ m ns, Begins ms m ns := by
  obtain ⟨hjoined, -, hfirst, -⟩ := h
  have hreserved : ∀ v, v ∉ "true" :: "false" :: reservedNames → v ∉ reservedNames :=
    fun v hv hmem => hv (List.mem_cons_of_mem _ (List.mem_cons_of_mem _ hmem))
  generalize qualifiers ++ [w] = ws at hjoined hfirst
  cases hjoined with
  | @one ms v h =>
      obtain ⟨line, rfl⟩ := h
      exact ⟨_, _, .of_name (hreserved v (hfirst v rfl))⟩
  | @cons ms ns m v vs h hm _ =>
      obtain ⟨line, rfl⟩ := h
      exact ⟨_, _, Begins.append (.of_name (hreserved v (hfirst v rfl)))
        (by rw [markAt_zero, hm]; decide)⟩

theorem Joined.begins {parts : List Phrase}
    (h : Joined separator (fun ks p => ks = p.marks) ms parts) (hsep : separator ∈ nameSequels)
    (hall : ∀ p ∈ parts, ∃ m ns, Begins p.marks m ns) : ∃ m ns, Begins ms m ns := by
  cases h with
  | @one ms p h =>
      subst h
      exact hall p List.mem_cons_self
  | @cons ms ns m p parts h hm _ =>
      subst h
      obtain ⟨first, tail, hp⟩ := hall p List.mem_cons_self
      exact ⟨_, _, hp.append (by rwa [markAt_zero, hm])⟩

theorem Written.begins (h : Written scope level p) : ∃ m ms, Begins p.marks m ms := by
  induction h with
  | keyword word => exact ⟨_, _, .of_name (by cases word <;> decide)⟩
  | bool value => exact ⟨_, _, .of_name (by cases value <;> decide)⟩
  | string m | number m => exact ⟨_, _, .of_kind (by simp [m.2])⟩
  | negative minus => exact ⟨_, _, .of_kind (by simp [minus.2])⟩
  | reference h => exact h.begins
  | applied h _ opener =>
      obtain ⟨m, ns, hpath⟩ := h.begins
      exact ⟨_, _, hpath.append (by rw [markAt_zero, opener.2]; decide)⟩
  | array _ opener _ _ ih =>
      obtain ⟨m, ns, hp⟩ := ih
      exact ⟨_, _, hp.append (by rw [markAt_zero, opener.2]; decide)⟩
  | tuple opener | parenthesized opener | shape opener =>
      exact ⟨_, _, .of_kind (by simp [opener.2])⟩
  | operand _ ih | part _ ih => exact ih
  | intersection _ hjoined _ ih | union _ hjoined _ ih => exact hjoined.begins (by decide) ih

theorem MarkOf.ne_arrow (m : MarkOf kind) (hkind : kind ≠ .arrow) : m.1.kind ≠ .arrow := by
  rwa [m.2]

theorem arrowFree_someMark (m : Option (MarkOf kind)) (hkind : kind ≠ .arrow) :
    ArrowFree (someMark m) := by
  cases m with
  | none => exact arrowFree_nil
  | some m => exact arrowFree_cons.2 ⟨m.ne_arrow hkind, arrowFree_nil⟩

theorem Joined.arrowFree {α : Type} {P : List Mark → α → Prop} {as : List α}
    (h : Joined separator P ms as) (hsep : separator ≠ .arrow)
    (hP : ∀ ns, ∀ a ∈ as, P ns a → ArrowFree ns) : ArrowFree ms := by
  induction h with
  | one h => exact hP _ _ List.mem_cons_self h
  | cons h hm _ ih =>
      exact arrowFree_append.2 ⟨hP _ _ List.mem_cons_self h, arrowFree_cons.2 ⟨by rwa [hm],
        ih fun ns a ha => hP ns a (List.mem_cons_of_mem _ ha)⟩⟩

theorem Listed.arrowFree {α : Type} {P : List Mark → α → Prop} {as : List α} (h : Listed P ms as)
    (hP : ∀ ns, ∀ a ∈ as, P ns a → ArrowFree ns) : ArrowFree ms := by
  induction h with
  | nil => exact arrowFree_nil
  | one h => exact hP _ _ List.mem_cons_self h
  | cons h hm _ ih =>
      exact arrowFree_append.2 ⟨hP _ _ List.mem_cons_self h, arrowFree_cons.2 ⟨by rw [hm]; decide,
        ih fun ns a ha => hP ns a (List.mem_cons_of_mem _ ha)⟩⟩

theorem Element.arrowFree {e : Element} (h : ArrowFree e.phrase.marks) : ArrowFree e.marks := by
  have hlabel : ArrowFree (e.label.elim [] Label.marks) := by
    cases e.label with
    | none => exact arrowFree_nil
    | some l => simp [Label.marks, arrowFree_someMark, MarkOf.ne_arrow]
  simp [Element.marks, arrowFree_someMark, hlabel, h]

theorem MemberPhrase.arrowFree {member : MemberPhrase}
    (h : ∀ p ∈ member.phrases, ArrowFree p.marks) : ArrowFree member.marks := by
  cases member with
  | property name hname optional colon phrase =>
      have hne : name.kind ≠ .arrow := by
        intro heq
        rw [heq] at hname
        exact absurd hname (by decide)
      have hphrase : ArrowFree phrase.marks := h _ List.mem_cons_self
      simp [MemberPhrase.marks, arrowFree_someMark, MarkOf.ne_arrow, hne, hphrase]
  | index opener key keyColon keyPhrase closer colon phrase =>
      have hkey : ArrowFree keyPhrase.marks := h _ List.mem_cons_self
      have hphrase : ArrowFree phrase.marks := h _ (List.mem_cons_of_mem _ List.mem_cons_self)
      simp [MemberPhrase.marks, MarkOf.ne_arrow, hkey, hphrase]

theorem Members.arrowFree {members : List MemberPhrase} (h : Members ms members)
    (hall : ∀ m ∈ members, ∀ p ∈ m.phrases, ArrowFree p.marks) : ArrowFree ms := by
  induction h with
  | nil => exact arrowFree_nil
  | separator hm _ ih =>
      refine arrowFree_cons.2 ⟨fun heq => ?_, ih hall⟩
      rw [heq] at hm
      exact absurd hm (by decide)
  | cons _ _ ih =>
      obtain ⟨hmember, hmembers⟩ := List.forall_mem_cons.1 hall
      exact arrowFree_append.2 ⟨MemberPhrase.arrowFree hmember, ih hmembers⟩

theorem IsPath.arrowFree (h : IsPath ms qualifiers w) : ArrowFree ms := by
  refine h.joined.arrowFree (by decide) fun ns v _ hv => ?_
  obtain ⟨line, rfl⟩ := hv
  simp

theorem Written.arrowFree (h : Written scope level p) : ArrowFree p.marks := by
  induction h with
  | keyword | bool => simp
  | string m | number m => simp [m.ne_arrow]
  | negative minus m => simp [minus.ne_arrow, m.ne_arrow]
  | reference h => exact h.arrowFree
  | applied h _ opener closer _ hargs _ ih =>
      have hlist := hargs.arrowFree fun ks p hp hks => hks ▸ ih p hp
      simp [h.arrowFree, opener.ne_arrow, closer.ne_arrow, hlist]
  | array _ opener _ closer ih => simp [ih, opener.ne_arrow, closer.ne_arrow]
  | tuple opener closer hlist _ ih =>
      have hlist := hlist.arrowFree fun ks e he hks => hks ▸ Element.arrowFree (ih e he)
      simp [opener.ne_arrow, closer.ne_arrow, hlist]
  | parenthesized opener closer _ ih => simp [opener.ne_arrow, closer.ne_arrow, ih]
  | shape opener closer hbody _ _ ih =>
      simp [opener.ne_arrow, closer.ne_arrow, hbody.arrowFree ih]
  | operand _ ih | part _ ih => exact ih
  | intersection _ hjoined _ ih | union _ hjoined _ ih =>
      exact hjoined.arrowFree (by decide) fun ks p hp hks => hks ▸ ih p hp

theorem Written.isOperand (h : Written scope .operand p) : p.type.IsOperand := by
  cases h <;> trivial

theorem MemberPhrase.types_member {member : MemberPhrase} :
    member.member.types = member.phrases.map Phrase.type := by
  cases member <;> rfl

/-- The text of the type shows all of it. -/
theorem Written.printable (h : Written scope level p) : p.type.Printable scope := by
  have hall : ∀ {phrases : List Phrase}, (∀ p ∈ phrases, p.type.Printable scope) →
      ∀ t ∈ phrases.map Phrase.type, t.Printable scope := fun h => List.forall_mem_map.2 h
  induction h with
  | keyword word => exact .keyword word
  | bool value => exact .literal ⟨trivial, nofun⟩
  | string m h => exact .literal ⟨trivial, fun s hs => by cases hs; exact h⟩
  | number m h => exact .literal ⟨.inl h, nofun⟩
  | negative minus m h => exact .literal ⟨.inr ⟨_, h, rfl⟩, nofun⟩
  | reference h => exact .reference h.word (fun hne => absurd rfl hne) nofun
  | @applied _ _ qualifiers w _ h hscope _ _ _ _ _ ih =>
      refine .reference h.word (fun _ => ?_) (hall ih)
      cases qualifiers with
      | nil => simp [isParameter, hscope rfl]
      | cons => rfl
  | array h _ _ _ ih => exact .array h.isOperand ih
  | tuple _ _ _ _ ih => exact .tuple (List.forall_mem_map.2 ih)
  | parenthesized _ _ _ ih => exact .parenthesized ih
  | shape _ _ _ hplain _ ih =>
      refine .shape (List.forall_mem_map.2 hplain) (List.forall_mem_map.2 fun m hm => ?_)
      rw [MemberPhrase.types_member]
      exact hall (ih m hm)
  | operand _ ih | part _ ih => exact ih
  | intersection _ _ _ ih => exact .intersection (hall ih)
  | union _ _ _ ih => exact .union (hall ih)

theorem Element.plain_false (e : Element) : e.plain false = e.phrase.plain false := by
  simp [Element.plain, optionalMarks]

theorem nameMark_onLine (name : String) : (nameMark name).onLine false = nameMark name := by
  rw [nameMark]
  split <;> rfl

theorem MemberPhrase.plain_false {member : MemberPhrase}
    (h : ∀ p ∈ member.phrases, p.type.marks = p.plain false) :
    member.member.marks false = member.plain false := by
  cases member with
  | property name _ optional colon phrase =>
      have hphrase : phrase.type.marks = phrase.plain false := h _ List.mem_cons_self
      simp [MemberPhrase.member, TypeMember.marks, MemberPhrase.plain, optionalTypeMarks,
        nameMark_onLine, hphrase]
  | index opener key keyColon keyPhrase closer colon phrase =>
      have hkey : keyPhrase.type.marks = keyPhrase.plain false := h _ List.mem_cons_self
      have hphrase : phrase.type.marks = phrase.plain false :=
        h _ (List.mem_cons_of_mem _ List.mem_cons_self)
      simp [MemberPhrase.member, TypeMember.marks, MemberPhrase.plain, hkey, hphrase]

/-- The marks of the tree are those written, without the ones on the elements of tuples. -/
theorem Written.marks_type (h : Written scope level p) : p.type.marks = p.plain false := by
  have hall : ∀ {phrases : List Phrase}, (∀ p ∈ phrases, p.type.marks = p.plain false) →
      typeMarks (phrases.map Phrase.type) = phrases.map fun p => p.plain false := by
    intro phrases h
    rw [typeMarks_eq, List.map_map]
    exact List.map_congr_left h
  induction h with
  | keyword | bool | string => rfl
  | number m h => exact h.numberMarks
  | negative minus m h => exact numberMarks_minus _
  | reference => rfl
  | applied _ _ _ _ hne _ _ ih => simp [TypeNode.marks, hall ih, hne]
  | array _ _ _ _ ih => simp [TypeNode.marks, ih]
  | @tuple _ elements _ _ _ _ ih =>
      have helements : typeMarks (elements.map fun e => e.phrase.type) =
          elements.map (Element.plain false) := by
        rw [typeMarks_eq, List.map_map]
        exact List.map_congr_left fun e he => (ih e he).trans e.plain_false.symm
      simp [TypeNode.marks, helements]
  | parenthesized _ _ _ ih => simp [TypeNode.marks, ih]
  | @shape _ members _ _ _ hplain _ ih =>
      have hmembers : memberMarks false (members.map MemberPhrase.member) =
          members.map (MemberPhrase.plain false) := by
        rw [memberMarks_eq false (List.forall_mem_map.2 hplain), List.map_map]
        exact List.map_congr_left fun m hm => MemberPhrase.plain_false (ih m hm)
      simp [TypeNode.marks, hmembers]
  | operand _ ih | part _ ih => exact ih
  | intersection _ _ _ ih | union _ _ _ ih => simp [TypeNode.marks, hall ih]

end HandlerWeave.Source
