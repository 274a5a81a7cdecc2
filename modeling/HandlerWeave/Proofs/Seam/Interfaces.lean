import HandlerWeave.Proofs.Seam.Texts

/-!
Interfaces with one property to a line. A line break separates the properties as a semicolon does,
unless a property is named by a word that its type, or the type on the line before, goes on with.
-/
namespace HandlerWeave.Source

open Source.Parser

/-- A property of an interface: its name, the text of its type, and the type that this is. -/
structure PropertyText where
  name : String
  optional : Bool
  text : String
  type : TypeNode
  name_word : IsWord name
  text_type : IsType text type

namespace PropertyText

/-- The line of the property up to the end of its type. -/
def front (p : PropertyText) : String :=
  "  " ++ p.name ++ (if p.optional then "?" else "") ++ ": " ++ p.text

def line (semicolons : Bool) (p : PropertyText) : String :=
  p.front ++ if semicolons then ";\n" else "\n"

def member (p : PropertyText) : TypeMember := .property p.name p.optional (some p.type)

/-- The type of the first property goes on with the name of the second one. -/
def runsInto (p q : PropertyText) : Bool :=
  Token.goesOn true (lex p.text).dropLast ⟨.word, "", q.name, 0⟩

end PropertyText

def interfaceText (semicolons : Bool) (name : String) (ps : List PropertyText) : String :=
  "interface " ++ name ++ " \x7b\n" ++ String.join (ps.map (·.line semicolons)) ++ "\x7d"

namespace PropertyText

variable {p : PropertyText} {ts : List Token}

/-- The tokens of a property up to the end of its type. -/
def Tokens (p : PropertyText) (ts : List Token) : Prop :=
  ∃ name marks colon front k,
    ts = name :: (marks ++ colon :: placed front k (lex p.text).dropLast) ∧
      name.face = (.word, p.name) ∧ colon.kind = .colon ∧
      marks.map Token.kind = if p.optional then [.question] else []

end PropertyText

/-- The tokens behind the type of a property. -/
def EndTokens (semicolons : Bool) (ts : List Token) : Prop :=
  ts.map Token.kind = if semicolons then [.semicolon] else []

/-- The tokens between the braces of an interface. -/
inductive BodyTokens (semicolons : Bool) : List PropertyText → List Token → Prop
  | nil : BodyTokens semicolons [] []
  | cons {p ps ts us vs} : p.Tokens ts → EndTokens semicolons us → BodyTokens semicolons ps vs →
      BodyTokens semicolons (p :: ps) (ts ++ (us ++ vs))

namespace Lexer

variable {c : Char} {rest gap : List Char} {before : Option Token} {offset : Nat} {w : String}
  {kind : Token.Kind}

/-- A type annotation that a line break or a semicolon ends. -/
theorem scan_annotation {text : String} {type : TypeNode} (h : IsType text type) {stop : Char}
    {more : List Char} (hstop : stop ∈ stops) (hnone : ClosesNone (stop :: more))
    (before : Option Token) (gap : List Char) (offset : Nat) :
    ∃ colon front k last offset', colon.kind = .colon ∧
      scan before gap offset 0 (':' :: ' ' :: (text.toList ++ stop :: more)) =
        colon :: (placed front k (lex text).dropLast ++ scan last [] offset' 0 (stop :: more)) := by
  obtain ⟨colon, offset', hcolon, hscan⟩ := scan_mark (c := ':') rfl before gap offset
    (' ' :: (text.toList ++ stop :: more))
  exact ⟨colon, _, _, _, _, hcolon, by rw [hscan, scan_blank (by decide), h.scan hstop hnone]⟩

/-- A mark that may be there. -/
theorem scan_if_mark (h : mark? c = some kind) (b : Bool) (before : Option Token) (gap : List Char)
    (offset : Nat) (rest : List Char) :
    ∃ ts last gap' offset', ts.map Token.kind = (if b then [kind] else []) ∧
      scan before gap offset 0 ((if b then [c] else []) ++ rest) =
        ts ++ scan last gap' offset' 0 rest := by
  cases b with
  | false => exact ⟨[], before, gap, offset, rfl, rfl⟩
  | true =>
      obtain ⟨t, offset', hkind, hscan⟩ := scan_mark h before gap offset rest
      exact ⟨[t], some t, [], offset', by simp [hkind], hscan⟩

/-- The tokens of a property that a line break or a semicolon ends. -/
theorem scan_property (p : PropertyText) {stop : Char} {more : List Char} (hstop : stop ∈ stops)
    (hnone : ClosesNone (stop :: more)) (before : Option Token) (gap : List Char) (offset : Nat) :
    ∃ ts last offset', p.Tokens ts ∧ scan before gap offset 0 (p.front.toList ++ stop :: more) =
      ts ++ scan last [] offset' 0 (stop :: more) := by
  have hmark : (if p.optional then "?" else "").toList = if p.optional then ['?'] else [] := by
    cases p.optional <;> rfl
  have hfront : p.front.toList ++ stop :: more = ' ' :: ' ' :: (p.name.toList ++
      ((if p.optional then ['?'] else []) ++ ':' :: ' ' :: (p.text.toList ++ stop :: more))) := by
    simp [PropertyText.front, String.toList_append, hmark]
  have hedge : Edge ((if p.optional then ['?'] else []) ++
      ':' :: ' ' :: (p.text.toList ++ stop :: more)) := by
    cases p.optional <;> exact edge_cons.2 (by decide)
  rw [hfront, scan_blank (by decide), scan_blank (by decide)]
  obtain ⟨name, offset₁, hname, hscan⟩ := scan_word p.name_word hedge before (gap ++ [' '] ++ [' '])
    (offset + ' '.utf8Size + ' '.utf8Size)
  obtain ⟨marks, last₂, gap₂, offset₂, hmarks, hscan₂⟩ := scan_if_mark (c := '?') rfl p.optional
    (some name) [] offset₁ (':' :: ' ' :: (p.text.toList ++ stop :: more))
  obtain ⟨colon, front, k, last, offset₃, hcolon, hscan₃⟩ :=
    scan_annotation p.text_type hstop hnone last₂ gap₂ offset₂
  refine ⟨_, last, offset₃, ⟨name, marks, colon, front, k, rfl, hname, hcolon, hmarks⟩, ?_⟩
  rw [hscan, hscan₂, hscan₃]
  simp

theorem scan_line (semicolons : Bool) (p : PropertyText) (rest : List Char) (before : Option Token)
    (gap : List Char) (offset : Nat) :
    ∃ ts us last gap' offset', p.Tokens ts ∧ EndTokens semicolons us ∧
      scan before gap offset 0 ((p.line semicolons).toList ++ rest) =
        ts ++ (us ++ scan last gap' offset' 0 rest) := by
  cases semicolons with
  | false =>
      have hline : (p.line false).toList ++ rest = p.front.toList ++ '\n' :: rest := by
        simp [PropertyText.line, String.toList_append]
      obtain ⟨ts, last, offset', hts, hscan⟩ := scan_property p (by decide) (closesNone_line rest)
        before gap offset
      exact ⟨ts, [], last, _, _, hts, rfl, by rw [hline, hscan, scan_blank (by decide)]; rfl⟩
  | true =>
      have hline : (p.line true).toList ++ rest = p.front.toList ++ ';' :: '\n' :: rest := by
        simp [PropertyText.line, String.toList_append]
      obtain ⟨ts, last, offset₁, hts, hscan⟩ := scan_property p (by decide)
        (closesNone_semicolon rest) before gap offset
      obtain ⟨semicolon, offset₂, hkind, hscan₂⟩ :=
        scan_mark (c := ';') rfl last [] offset₁ ('\n' :: rest)
      refine ⟨ts, [semicolon], some semicolon, ['\n'], offset₂ + '\n'.utf8Size, hts,
        by simp [EndTokens, hkind], ?_⟩
      rw [hline, hscan, hscan₂, scan_blank (by decide)]
      rfl

/-- The tokens of the lines of an interface. -/
theorem scan_lines (semicolons : Bool) (ps : List PropertyText) (rest : List Char)
    (before : Option Token) (gap : List Char) (offset : Nat) :
    ∃ ts last gap' offset', BodyTokens semicolons ps ts ∧
      scan before gap offset 0 ((String.join (ps.map (·.line semicolons))).toList ++ rest) =
        ts ++ scan last gap' offset' 0 rest := by
  induction ps generalizing before gap offset with
  | nil => exact ⟨[], before, gap, offset, .nil, rfl⟩
  | cons p ps ih =>
      rw [List.map_cons, String.join_cons, String.toList_append, List.append_assoc]
      obtain ⟨ts, us, last, gap₁, offset₁, hts, hus, hscan⟩ := scan_line semicolons p
        ((String.join (ps.map (·.line semicolons))).toList ++ rest) before gap offset
      obtain ⟨vs, last', gap', offset', hvs, hrest⟩ := ih last gap₁ offset₁
      exact ⟨_, last', gap', offset', .cons hts hus hvs, by rw [hscan, hrest]; simp⟩

end Lexer

section

variable {g : Grammar} {name t : Token} {ts us rest : List Token} {optional : Bool}
  {type : Option TypeNode}

/-- Behind the name of a property stands what neither a modifier nor a method has there. -/
theorem Reads.typeMember (hname : name.kind = .word) (ht : t.kind ∈ [.colon, .question])
    (hhead : (ts ++ (us ++ rest)).head? = some t)
    (hoptional : Reads (takeKind .question) ts (us ++ rest) optional)
    (hcolon : (us ++ rest).head?.any (·.kind == .colon) = true)
    (htype : Reads (after .colon g.type) us rest type) :
    Reads g.typeMember (name :: (ts ++ us)) rest
      (some (some (.property name.text optional type))) := by
  have hkind : ∀ c : Cursor, c.ahead = name :: (ts ++ us) ++ rest → c.kind = .word := by
    intro c hc
    simp [Cursor.kind, Cursor.kindAhead, Cursor.tokenAt, hc, hname]
  have hnext : ∀ c : Cursor, c.ahead = name :: (ts ++ us) ++ rest →
      c.kindAhead 1 ∈ [Token.Kind.colon, .question] := by
    intro c hc
    have hone : c.tokenAt 1 = t := by
      rw [Cursor.tokenAt, hc, List.cons_append, List.getElem?_cons_succ, List.append_assoc,
        ← List.head?_eq_getElem?, hhead]
      rfl
    rwa [Cursor.kindAhead, hone]
  have hstarts : ∀ c : Cursor, c.ahead = name :: (ts ++ us) ++ rest → c.nameStartsAt 1 = false := by
    intro c hc
    have h := hnext c hc
    rw [Cursor.nameStartsAt]
    revert h
    cases c.kindAhead 1 <;> decide
  have hsignature : ∀ c : Cursor, c.ahead = name :: (ts ++ us) ++ rest →
      (c.kindAhead 1 == .leftParen || c.kindAhead 1 == .less) = false := by
    intro c hc
    have h := hnext c hc
    revert h
    cases c.kindAhead 1 <;> decide
  have hmember : Reads (Grammar.memberName "type member") [name] (ts ++ us ++ rest) name.text := by
    refine .look fun c hc => ?_
    rw [hkind c hc]
    exact .takeText
  refine .look fun c hc => .ite_neg ?_ (.ite_neg ?_ (.ite_neg ?_ (.ite_neg ?_
    (.look fun c hc => .ite_neg ?_ (.ite_neg ?_ (.ite_neg ?_ (.look fun d hd => .ite_neg ?_
      (hmember.bind_cons (hoptional.bind (.look fun e he => .ite_neg ?_
        htype.then_pure))))))))))
  · simp [Cursor.check, hkind c hc]
  · simp [Cursor.check, hkind c hc]
  · simp [Cursor.check, hkind c hc]
  · simp [hstarts c hc]
  · simp [Cursor.check, hkind c hc]
  · simp [hsignature c hc]
  · simp [hstarts c hc]
  · simp [Grammar.atIndexSignature, Cursor.check, hkind d hd]
  · have hcolon : e.kind = .colon := by
      rw [← he] at hcolon
      cases hahead : e.ahead with
      | nil => rw [hahead] at hcolon; cases hcolon
      | cons u us =>
          rw [hahead] at hcolon
          simpa [Cursor.kind, Cursor.kindAhead, Cursor.tokenAt, hahead] using hcolon
    simp [hstarts c hc, Cursor.check, hcolon]

end

namespace PropertyText

variable {p : PropertyText} {ts : List Token} {next : Token} {more : List Token} {levels : Nat}

/-- A property is read up to a token that its type does not go on with. -/
theorem Tokens.reads (h : p.Tokens ts) (hfollows : next.kind.follows = true)
    (hsettled : Token.goesOn true (lex p.text).dropLast next = false)
    (hlevels : (lex p.text).length ≤ levels) :
    Reads (Grammar.withLevels levels).typeMember ts (next :: more) (some (some p.member)) := by
  obtain ⟨name, marks, colon, front, k, rfl, hname, hcolon, hmarks⟩ := h
  obtain ⟨hkind, htext⟩ := Prod.mk.inj hname
  have htype : Reads (after .colon (Grammar.withLevels levels).type)
      (colon :: placed front k (lex p.text).dropLast) (next :: more) (some p.type) :=
    .after_yes hcolon (p.text_type.reads hfollows hsettled hlevels front k more)
  have hmember : p.member = .property name.text p.optional (some p.type) := by rw [member, ← htext]
  rw [hmember]
  cases hoptional : p.optional with
  | false =>
      rw [hoptional] at hmarks
      obtain rfl : marks = [] := List.map_eq_nil_iff.1 hmarks
      exact .typeMember hkind (by simp [hcolon]) rfl (.takeKind_no (by rw [hcolon]; decide))
        (by simp [hcolon]) htype
  | true =>
      rw [hoptional] at hmarks
      obtain ⟨question, _, rfl, hquestion, hnil⟩ := List.map_eq_cons_iff.1 hmarks
      obtain rfl := List.map_eq_nil_iff.1 hnil
      exact .typeMember hkind (by simp [hquestion]) rfl (.takeKind_yes hquestion) (by simp [hcolon])
        htype

theorem Tokens.head (h : p.Tokens ts) (rest : List Token) :
    ∃ t us, ts ++ rest = t :: us ∧ t.face = (Token.Kind.word, p.name) := by
  obtain ⟨name, marks, colon, front, k, rfl, hname, -⟩ := h
  exact ⟨name, _, rfl, hname⟩

end PropertyText

variable {g : Grammar} {t : Token} {ts rest : List Token}

theorem Reads.typeMember_separator (h : t.kind = .semicolon) :
    Reads g.typeMember [t] rest (some none) := by
  refine .look fun c hc => .ite_neg ?_ (.ite_neg ?_ (.ite_pos ?_ (advance.bind .pure)))
  all_goals simp [Cursor.check, Cursor.kind, Cursor.kindAhead, Cursor.tokenAt, hc, h]

theorem Reads.typeMember_end (h : t.kind = .rightBrace) : Reads g.typeMember [] (t :: rest) none :=
  .look fun c hc => .ite_pos
    (by simp [Cursor.check, Cursor.kind, Cursor.kindAhead, Cursor.tokenAt, hc, h]) .pure

theorem BodyTokens.length_le {semicolons : Bool} {ps : List PropertyText}
    (h : BodyTokens semicolons ps ts) {p : PropertyText} (hp : p ∈ ps) :
    (lex p.text).length ≤ ts.length := by
  induction h with
  | nil => cases hp
  | @cons q ps ts us vs hts hus hvs ih =>
      rw [List.length_append, List.length_append]
      obtain rfl | hp := List.mem_cons.1 hp
      · obtain ⟨name, marks, colon, front, k, rfl, -⟩ := hts
        simp only [List.length_cons, List.length_append, placed_length, List.length_dropLast]
        omega
      · have hlength := ih hp
        omega

/-- Behind every property that no semicolon ends stands a name that its type does not go on with. -/
def Separated (semicolons : Bool) (ps : List PropertyText) : Prop :=
  semicolons = false → ∀ p q, [p, q] <:+: ps → p.runsInto q = false

/-- The members between the braces are the properties. -/
theorem BodyTokens.reads {semicolons : Bool} {ps : List PropertyText}
    (h : BodyTokens semicolons ps ts)
    (hseparated : Separated semicolons ps) {levels : Nat}
    (hlevels : ∀ p ∈ ps, (lex p.text).length ≤ levels) (ht : t.kind = .rightBrace)
    (rest : List Token) :
    ∃ members, members.filterMap id = ps.map PropertyText.member ∧
      ReadsMany (Grammar.withLevels levels).typeMember ts (t :: rest) members := by
  induction h with
  | nil => exact ⟨[], rfl, .nil (.typeMember_end ht)⟩
  | @cons p ps ts us vs hts hus hvs ih =>
      obtain ⟨members, hmembers, hreads⟩ := ih
        (fun hnone q r hqr => hseparated hnone q r (hqr.trans (List.suffix_cons p ps).isInfix))
        fun q hq => hlevels q (List.mem_cons_of_mem p hq)
      have hlevel := hlevels p List.mem_cons_self
      obtain ⟨name, marks, hts_eq, -⟩ := hts.head []
      have hne : ts ≠ [] := by
        rw [List.append_nil] at hts_eq
        rw [hts_eq]
        exact List.cons_ne_nil _ _
      cases semicolons with
      | true =>
          obtain ⟨semicolon, _, rfl, hsemicolon, hnil⟩ := List.map_eq_cons_iff.1 hus
          obtain rfl := List.map_eq_nil_iff.1 hnil
          have hread : Reads _ ts (semicolon :: (vs ++ t :: rest)) _ := hts.reads
            (by rw [hsemicolon]; rfl) (Token.goesOn_of_kind (by rw [hsemicolon]; decide) _ _) hlevel
          refine ⟨some p.member :: none :: members, congrArg (p.member :: ·) hmembers, .cons ?_ hne
            (.cons (.typeMember_separator hsemicolon) (List.cons_ne_nil _ _) hreads)⟩
          simpa using hread
      | false =>
          obtain rfl : us = [] := List.map_eq_nil_iff.1 hus
          refine ⟨some p.member :: members, congrArg (p.member :: ·) hmembers, .cons ?_ hne hreads⟩
          cases hvs with
          | nil =>
              exact hts.reads (by rw [ht]; rfl)
                (Token.goesOn_of_kind (by rw [ht]; decide) _ _) hlevel
          | @cons q ps ts' us' vs' hts' _ _ =>
              obtain ⟨next, more, hnext, hface⟩ := hts'.head (us' ++ vs' ++ t :: rest)
              let named : Token := ⟨.word, "", q.name, 0⟩
              have hsettled : Token.goesOn true (lex p.text).dropLast named = false :=
                hseparated rfl p q ⟨[], ps, rfl⟩
              have hface : next.face = named.face := hface
              have hread : Reads _ ts (next :: more) _ := hts.reads
                (by rw [Token.kind_congr hface]; rfl)
                ((Token.goesOn_congr true rfl hface).trans hsettled) hlevel
              rw [← hnext] at hread
              simpa using hread

/-- The tokens of a text that is one interface. -/
theorem lex_interfaceText {name : String} (hname : IsWord name) (semicolons : Bool)
    (ps : List PropertyText) :
    ∃ interface word opening body closing file, lex (interfaceText semicolons name ps) =
        interface :: word :: opening :: (body ++ [closing]) ++ [file] ∧
      interface.face = (.word, "interface") ∧ word.face = (.word, name) ∧
      opening.kind = .leftBrace ∧ BodyTokens semicolons ps body ∧ closing.kind = .rightBrace := by
  let lines := (String.join (ps.map (·.line semicolons))).toList
  have htext : (interfaceText semicolons name ps).toList = "interface".toList ++
      ' ' :: (name.toList ++ ' ' :: '\x7b' :: '\n' :: (lines ++ ['\x7d'])) := by
    simp [interfaceText, String.toList_append, lines]
  have hspace (rest : List Char) : Edge (' ' :: rest) := edge_cons.2 (by decide)
  have hkeyword : IsWord "interface" := .inl rfl
  obtain ⟨interface, offset₁, hinterface, hscan₁⟩ := Lexer.scan_word hkeyword
    (hspace (name.toList ++ ' ' :: '\x7b' :: '\n' :: (lines ++ ['\x7d']))) none [] 0
  obtain ⟨word, offset₂, hword, hscan₂⟩ := Lexer.scan_word hname
    (hspace ('\x7b' :: '\n' :: (lines ++ ['\x7d']))) (some interface) ([] ++ [' '])
    (offset₁ + ' '.utf8Size)
  obtain ⟨opening, offset₃, hopening, hscan₃⟩ := Lexer.scan_mark (c := '\x7b') rfl (some word)
    ([] ++ [' ']) (offset₂ + ' '.utf8Size) ('\n' :: (lines ++ ['\x7d']))
  obtain ⟨body, last, gap, offset₄, hbody, hscan₄⟩ := Lexer.scan_lines semicolons ps ['\x7d']
    (some opening) ([] ++ ['\n']) (offset₃ + '\n'.utf8Size)
  obtain ⟨closing, offset₅, hclosing, hscan₅⟩ :=
    Lexer.scan_mark (c := '\x7d') rfl last gap offset₄ []
  refine ⟨interface, word, opening, body, closing, ⟨.endOfFile, "", "", offset₅⟩, ?_, hinterface,
    hword, hopening, hbody, hclosing⟩
  rw [lex, htext, hscan₁, scan_blank (by decide), hscan₂, scan_blank (by decide), hscan₃,
    scan_blank (by decide), hscan₄, hscan₅, Lexer.scan]
  simp

section

variable {g : Grammar} {interface word opening closing : Token} {body : List Token}
  {members : List (Option TypeMember)}

/-- An interface without type parameters and bases, whose name and members are known. -/
theorem Reads.interfaceDef (hinterface : interface.isWord "interface" = true)
    (hword : word.kind = .word) (hopening : opening.kind = .leftBrace)
    (hbody : ReadsMany g.typeMember body (closing :: rest) members)
    (hclosing : closing.kind = .rightBrace) :
    Reads (g.declaration {} []) (interface :: word :: opening :: (body ++ [closing])) rest
      (some (.interfaceDef ⟨word.text, {}, [], [], members.filterMap id⟩)) := by
  have hmembers : Reads g.typeMembers (opening :: (body ++ [closing])) rest
      (members.filterMap id) :=
    (Reads.require hopening).bind_cons
      (hbody.many.bind ((Reads.require hclosing).bind_cons .pure))
  have hparams : Reads g.typeParams [] (opening :: (body ++ [closing]) ++ rest) [] :=
    bind_nil (takeKind_no (by rw [hopening]; decide)) (.ite_neg (by decide) .pure)
  have hbases : Reads (g.heritageAfter "extends") [] (opening :: (body ++ [closing]) ++ rest) [] :=
    bind_nil (takeWord_no (by simp [Token.isWord, hopening])) (.ite_neg (by decide) .pure)
  have hdef : Reads (g.interfaceDef {}) (interface :: word :: opening :: (body ++ [closing])) rest
      ⟨word.text, {}, [], [], members.filterMap id⟩ :=
    (Reads.requireWord hinterface).bind_cons ((Reads.word hword).bind_cons
      (hparams.bind_nil (hbases.bind_nil hmembers.then_pure)))
  refine .look fun c hc => ?_
  have hsees (w : String) : c.seesWord w = interface.isWord w := by
    simp [Cursor.seesWord, Cursor.wordAt, Cursor.tokenAt, hc]
  have hnext : c.kindAhead 1 = .word := by
    simp [Cursor.kindAhead, Cursor.tokenAt, hc, hword]
  have himport : c.seesWord "import" = false :=
    (hsees _).trans (Token.isWord_ne hinterface (by decide))
  have hclass : c.seesWord "class" = false :=
    (hsees _).trans (Token.isWord_ne hinterface (by decide))
  exact .ite_neg (by simp [himport]) (.ite_neg (by simp [hclass])
    (.ite_pos (by simp [hsees, hinterface, hnext]) hdef.then_pure))

end

/-- An interface with a property to a line is read as it is written, if its properties are
separated. -/
theorem parse_interfaceText {name : String} (hname : IsWord name) {semicolons : Bool}
    {ps : List PropertyText} (hseparated : Separated semicolons ps) :
    parse (interfaceText semicolons name ps) =
      .ok [.interfaceDef ⟨name, {}, [], [], ps.map PropertyText.member⟩] := by
  obtain ⟨interface, word, opening, body, closing, file, hlex, hinterface, hword, hopening, hbody,
    hclosing⟩ := lex_interfaceText hname semicolons ps
  obtain ⟨l, hl, -⟩ := lex_listing (interfaceText semicolons name ps)
  obtain ⟨hfront, -⟩ := List.append_inj' (hl.symm.trans hlex) rfl
  have hlevels (p : PropertyText) (hp : p ∈ ps) : (lex p.text).length ≤ l.front.length + 2 := by
    have hlength := hbody.length_le hp
    simp only [hfront, List.length_cons, List.length_append]
    omega
  obtain ⟨members, hmembers, hreads⟩ := hbody.reads hseparated hlevels hclosing []
  have hisWord : interface.isWord "interface" = true :=
    Token.isWord_congr (u := ⟨.word, "", "interface", 0⟩) hinterface _
  have hread := Reads.interfaceDef hisWord (Prod.mk.inj hword).1 hopening hreads hclosing
  rw [hmembers, (Prod.mk.inj hword).2] at hread
  refine parse_of_statement hl hfront (Prod.mk.inj hinterface).1
    (.statement (Prod.mk.inj hinterface).1
    (fun w hw => Token.isWord_ne hisWord ?_) hread)
  rintro rfl
  exact absurd hw (by decide)

/-- Line breaks separate the properties of an interface as semicolons do, if no property is named by
a word that the type on the line before goes on with. -/
theorem lineBreaks_separate {name : String} (hname : IsWord name) (ps : List PropertyText)
    (hsettled : ∀ p q, [p, q] <:+: ps → p.runsInto q = false) :
    parse (interfaceText false name ps) = parse (interfaceText true name ps) ∧
      parse (interfaceText true name ps) =
        .ok [.interfaceDef ⟨name, {}, [], [], ps.map PropertyText.member⟩] := by
  have hlines : parse (interfaceText false name ps) = _ :=
    parse_interfaceText hname fun _ => hsettled
  have hsemicolons : parse (interfaceText true name ps) = _ :=
    parse_interfaceText hname (by rintro ⟨⟩)
  exact ⟨hlines.trans hsemicolons.symm, hsemicolons⟩

namespace PropertyText

/-- The property `id?: string[]`. -/
def idNames : PropertyText where
  name := "id"
  optional := true
  text := "string[]"
  type := .array (.keyword .string)
  name_word := .inl rfl
  text_type := ⟨rfl, by decide +kernel, by decide +kernel⟩

/-- The property `extends: 1`. -/
def extendsOne : PropertyText where
  name := "extends"
  optional := false
  text := "1"
  type := .literal (.number "1")
  name_word := .inl rfl
  text_type := ⟨rfl, by decide +kernel, by decide +kernel⟩

end PropertyText

open PropertyText in
theorem lineBreaks_separate_names :
    let ps := [extendsOne, idNames]
    IsWord "A" ∧ (∀ p q, [p, q] <:+: ps → p.runsInto q = false) ∧
      parse (interfaceText false "A" ps) = parse (interfaceText true "A" ps) := by
  intro ps
  have hsettled : ∀ p q, [p, q] <:+: ps → p.runsInto q = false := by
    rintro p q ⟨s, t, h⟩
    have hlength := congrArg List.length h
    simp only [ps, List.length_append, List.length_cons, List.length_nil] at hlength
    obtain rfl : s = [] := List.length_eq_zero_iff.1 (by omega)
    obtain ⟨rfl, rfl, -⟩ : p = extendsOne ∧ q = idNames ∧ t = [] := by simpa [ps] using h
    decide +kernel
  exact ⟨.inl rfl, hsettled, (lineBreaks_separate (.inl rfl) ps hsettled).1⟩

open PropertyText in
/-- A property named `extends` on the next line makes the type in front of it the front of a
condition. -/
theorem lineBreaks_not_separate :
    let ps := [idNames, extendsOne]
    parse (interfaceText false "A" ps) = .error ⟨.expected "type" (.token ":"), 39⟩ ∧
      parse (interfaceText true "A" ps) =
        .ok [.interfaceDef ⟨"A", {}, [], [], ps.map PropertyText.member⟩] := by
  exact ⟨by rfl, by rfl⟩

end HandlerWeave.Source
