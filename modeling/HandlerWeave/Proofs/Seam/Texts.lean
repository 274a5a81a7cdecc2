import HandlerWeave.Proofs.Seam.Reading
import HandlerWeave.Proofs.Source.Sequel

/-!
The text of a type. Read alone it gives some type, and it gives the same type inside of another
text, wherever a token follows that goes on with nothing in it.
-/
namespace HandlerWeave.Source

open Source.Parser Source.Group

variable {t u : Token} {ts us : List Token} {before before' : Option Token} {w : List Token.Kind}

namespace Token

theorem kind_congr (h : t.face = u.face) : t.kind = u.kind := (Prod.mk.inj h).1

theorem isWord_congr (h : t.face = u.face) (word : String) : t.isWord word = u.isWord word := by
  obtain ⟨hkind, htext⟩ := Prod.mk.inj h
  rw [isWord, isWord, hkind, htext]

theorem elim_congr {b : Bool} {p : Token → Bool} (hp : ∀ t u : Token, t.face = u.face → p t = p u)
    (h : before.map face = before'.map face) : before.elim b p = before'.elim b p := by
  cases before with
  | none =>
      rw [Option.map_none, eq_comm, Option.map_eq_none_iff] at h
      rw [h]
  | some t =>
      obtain ⟨u, rfl, hface⟩ := Option.map_eq_some_iff.1 h.symm
      exact hp t u hface.symm

theorem any_congr {p : Token → Bool} (hp : ∀ t u : Token, t.face = u.face → p t = p u)
    (h : before.map face = before'.map face) : before.any p = before'.any p := by
  have helim (o : Option Token) : o.any p = o.elim false p := by cases o <;> rfl
  rw [helim, helim, elim_congr hp h]

theorem bindsNext_congr (alone : Bool) (hbefore : before.map face = before'.map face)
    (h : t.face = u.face) {next next' : Token} (hnext : next.face = next'.face) :
    bindsNext alone before t next = bindsNext alone before' u next' := by
  have hleads : before.elim alone leadsType = before'.elim alone leadsType :=
    elim_congr (fun t u h => by
      rw [leadsType, leadsType, kind_congr h, (Prod.mk.inj h).2]) hbefore
  have harrow : before.any (·.kind == .arrow) = before'.any (·.kind == .arrow) :=
    any_congr (fun t u h => by rw [kind_congr h]) hbefore
  have hpredicate : before.any (fun u => u.kind == .arrow || u.isWord "asserts") =
      before'.any (fun u => u.kind == .arrow || u.isWord "asserts") :=
    any_congr (fun t u h => by rw [kind_congr h, isWord_congr h]) hbefore
  rw [bindsNext, bindsNext, hleads, harrow, hpredicate, kind_congr h, kind_congr hnext]
  simp only [isWord_congr h, isWord_congr hnext]

/-- Only a word is taken for more of a type. -/
theorem goesOn_of_kind {next : Token} (h : next.kind ≠ .word) (alone : Bool) (ts : List Token) :
    goesOn alone ts next = false := by
  have hword (word : String) : next.isWord word = false := by
    rw [isWord, beq_false_of_ne h, Bool.false_and]
  have hbinds (before : Option Token) (t : Token) : bindsNext alone before t next = false := by
    simp only [bindsNext, hword, beq_false_of_ne h, Bool.and_false, Bool.or_false]
  rw [goesOn, hword, Bool.false_or]
  cases ts.getLast? with
  | none => rfl
  | some t => exact hbinds _ t

theorem goesOn_congr (alone : Bool) (h : ts.map face = us.map face) {next next' : Token}
    (hnext : next.face = next'.face) : goesOn alone ts next = goesOn alone us next' := by
  have hlast : ts.getLast?.map face = us.getLast?.map face := by
    rw [← List.getLast?_map, ← List.getLast?_map, h]
  have hbefore : ts.dropLast.getLast?.map face = us.dropLast.getLast?.map face := by
    rw [← List.getLast?_map, ← List.getLast?_map, List.map_dropLast, List.map_dropLast, h]
  have hbinds : ts.getLast?.any (bindsNext alone ts.dropLast.getLast? · next) =
      us.getLast?.any (bindsNext alone us.dropLast.getLast? · next') := by
    rw [any_congr (fun t u h => bindsNext_congr alone rfl h rfl) hlast]
    exact congrArg (us.getLast?.any ·) (funext fun t => bindsNext_congr alone hbefore rfl hnext)
  rw [goesOn, goesOn, hbinds, isWord_congr hnext]

end Token

namespace Group

theorem open1?_congr (h : t.face = u.face) : open1? w t = open1? w u := by
  rw [open1?, open1?, Token.kind_congr h]

theorem braceFollows_congr (h : ts.map Token.face = us.map Token.face) :
    braceFollows w ts = braceFollows w us := by
  induction ts generalizing us w with
  | nil => rw [List.map_eq_nil_iff.1 h.symm]
  | cons t ts ih =>
      obtain ⟨u, us, rfl, hface, hrest⟩ := List.map_eq_cons_iff.1 h.symm
      rw [braceFollows, braceFollows, open1?_congr hface, Token.kind_congr hface]
      exact congrArg (_ || ·) (congrArg (Option.any · _) (funext fun w => ih hrest.symm))

theorem bodied_congr (hbefore : before.map Token.face = before'.map Token.face)
    (h : ts.map Token.face = us.map Token.face) : bodied w before ts = bodied w before' us := by
  induction ts generalizing us w before before' with
  | nil =>
      rw [List.map_eq_nil_iff.1 h.symm]
      rfl
  | cons t ts ih =>
      obtain ⟨u, us, rfl, hface, hrest⟩ := List.map_eq_cons_iff.1 h.symm
      have hnext : (some t).map Token.face = (some u).map Token.face := congrArg some hface.symm
      have hleads : before.any (·.kind.leads w.head?) = before'.any (·.kind.leads w.head?) :=
        Token.any_congr (fun t u h => by rw [Token.kind_congr h]) hbefore
      rw [bodied, bodied, hleads, open1?_congr hface, Token.isWord_congr hface,
        Token.isWord_congr hface, braceFollows_congr hrest.symm]
      exact congrArg (_ && ·) (congrArg (Option.all · _)
        (funext fun w => ih hnext hrest.symm))

theorem typeBodied_congr (h : ts.map Token.face = us.map Token.face) (hbodied : TypeBodied ts) :
    TypeBodied us := by
  rintro ⟨u, hu, hkind⟩
  obtain ⟨t, ht, hface⟩ := List.mem_map.1 (h ▸ List.mem_map_of_mem (f := Token.face) hu)
  have hts := hbodied ⟨t, ht, (Token.kind_congr hface).trans hkind⟩
  exact (bodied_congr rfl h).symm.trans hts

end Group

/-- A text that is one statement. -/
theorem parse_of_statement {l : Listing} {source : String} (hl : lex source = l.tokens)
    {o : Option Item}
    (hfront : l.front = t :: ts) (hkind : t.kind = .word)
    (h : Reads (Grammar.withLevels (l.front.length + 2)).statement (t :: ts) [] o) :
    parse source = .ok o.toList := by
  have hround := Reads.statementRound hkind h (.between [] l.front l.file)
    (by rw [Cursor.between_ahead, hfront, List.append_nil])
  have hplace := Cursor.between_advanceBy [] l.front [] l.file
  rw [List.append_nil, List.nil_append] at hplace
  rw [← hfront, hplace] at hround
  have hend : (Cursor.between l.front [] l.file).kind = .endOfFile := l.file_kind
  have hlast : manyWithin (Grammar.withLevels (l.front.length + 2)).statementRound l.front.length
      (.between l.front [] l.file) = .ok ([], .between l.front [] l.file) := by
    obtain ⟨rounds, hrounds⟩ : ∃ rounds, l.front.length = rounds + 1 :=
      ⟨ts.length, by rw [hfront, List.length_cons]⟩
    generalize (l.front.length + 2) = levels
    rw [hrounds]
    exact bind_eq_ok.2 ⟨none, _, Grammar.statementRound_file hend, rfl⟩
  rw [parse_eq_rounds l hl, manyWithin_cons hround, hlast]
  cases o <;> rfl

namespace Lexer

variable {c : Char} {rest : List Char} {w : String} {kind : Token.Kind}

theorem scan_word_eq (hw : IsWord w) (hrest : Edge rest) (before : Option Token) (gap : List Char)
    (offset : Nat) :
    let t : Token := ⟨.word, String.ofList gap, w, offset⟩
    scan before gap offset 0 (w.toList ++ rest) =
      t :: scan (some t) [] (offset + Text.byteLength w.toList) 0 rest := by
  intro t
  obtain ⟨c, cs, hlist, hlexeme⟩ := lexeme_of_isWord hw
  rw [hlist, List.cons_append, scan_lexeme (hlexeme before rest hrest.endsWord), ← hlist,
    String.ofList_toList]

theorem scan_word (hw : IsWord w) (hrest : Edge rest) (before : Option Token) (gap : List Char)
    (offset : Nat) : ∃ t offset', t.face = (Token.Kind.word, w) ∧
      scan before gap offset 0 (w.toList ++ rest) = t :: scan (some t) [] offset' 0 rest :=
  ⟨_, _, rfl, scan_word_eq hw hrest before gap offset⟩

theorem scan_mark (h : mark? c = some kind) (before : Option Token) (gap : List Char) (offset : Nat)
    (rest : List Char) : ∃ t offset', t.kind = kind ∧
      scan before gap offset 0 (c :: rest) = t :: scan (some t) [] offset' 0 rest := by
  refine ⟨⟨kind, String.ofList gap, String.ofList [c], offset⟩, offset + Text.byteLength [c], rfl,
    ?_⟩
  rw [scan, lexeme_mark h]
  rfl

end Lexer

namespace Grammar

variable {α : Type} {g : Grammar} {c d : Cursor} {type : TypeNode}

/-- A pattern or an operator stands ahead. -/
def AtOperator (c : Cursor) : Prop := c.kind = .regex ∨ c.kind = .operator

theorem AtOperator.check (h : AtOperator c) (kind : Token.Kind) (hregex : kind ≠ .regex)
    (hoperator : kind ≠ .operator) : c.check kind = false := by
  obtain h | h := h <;> rw [Cursor.check, h]
  · exact beq_false_of_ne hregex.symm
  · exact beq_false_of_ne hoperator.symm

theorem AtOperator.seesWord (h : AtOperator c) (word : String) : c.seesWord word = false := by
  obtain h | h := h <;> rw [Cursor.isWord_token, h] <;> rfl

theorem AtOperator.takeKind (h : AtOperator c) {kind : Token.Kind} (hregex : kind ≠ .regex)
    (hoperator : kind ≠ .operator) : Parser.takeKind kind c = .ok (false, c) :=
  if_neg (by simp [h.check kind hregex hoperator])

theorem separated_first {separator : Token.Kind} {item : Parser α} {as : List α}
    (h : separated separator item c = .ok (as, d)) : ∃ a e, item c = .ok (a, e) := by
  obtain ⟨a, e, hitem, -⟩ := bind_eq_ok.1 h
  exact ⟨a, e, hitem⟩

theorem primaryType_start (h : AtOperator c) : g.primaryType c ≠ .ok (type, d) := by
  intro hrun
  obtain ⟨_, _, hlook, hrun⟩ := bind_eq_ok.1 hrun
  cases hlook
  obtain h | h := h
  all_goals
    rw [h] at hrun
    cases hrun

theorem operandTypeRule_start (h : AtOperator c) : g.operandTypeRule c ≠ .ok (type, d) := by
  intro hrun
  have hsees := h.seesWord
  obtain ⟨_, _, hlook, hrun⟩ := bind_eq_ok.1 hrun
  cases hlook
  rw [if_neg (by simp [Cursor.seesAnyWord, hsees]), if_neg (by simp [hsees])] at hrun
  obtain ⟨_, _, hprimary, -⟩ := bind_eq_ok.1 hrun
  exact primaryType_start h hprimary

theorem unionType_start (h : AtOperator c) : g.unionType c ≠ .ok (type, d) := by
  intro hrun
  obtain ⟨_, _, hpipe, hrun⟩ := bind_eq_ok.1 hrun
  rw [h.takeKind (by decide) (by decide)] at hpipe
  cases hpipe
  obtain ⟨_, _, hparts, -⟩ := bind_eq_ok.1 hrun
  obtain ⟨_, _, hpart⟩ := separated_first hparts
  obtain ⟨_, _, hampersand, hpart⟩ := bind_eq_ok.1 hpart
  rw [h.takeKind (by decide) (by decide)] at hampersand
  cases hampersand
  obtain ⟨_, _, hparts, -⟩ := bind_eq_ok.1 hpart
  obtain ⟨_, _, hpart⟩ := separated_first hparts
  exact operandTypeRule_start h hpart

/-- No type starts with a pattern or an operator. -/
theorem typeRule_start (h : AtOperator c) : g.typeRule c ≠ .ok (type, d) := by
  intro hrun
  have hsees := h.seesWord
  have hless := h.check .less (by decide) (by decide)
  have hparen := h.check .leftParen (by decide) (by decide)
  obtain ⟨_, _, hlook, hrun⟩ := bind_eq_ok.1 hrun
  cases hlook
  rw [if_neg (by simp [atArrowParams, hless, hparen]), if_neg (by simp [hsees])] at hrun
  obtain ⟨_, _, hunion, -⟩ := bind_eq_ok.1 hrun
  exact unionType_start h hunion

end Grammar

/-- The type that a text is from its first token to its last. -/
def typeOf? (text : String) : Option TypeNode :=
  match (Grammar.withLevels ((lex text).length + 1)).type (.ofTokens (lex text)) with
  | .ok (type, c) => if c.check .endOfFile then some type else none
  | .error _ => none

/-- A text is a type, and no blank and no comment ends it. -/
structure IsType (text : String) (type : TypeNode) : Prop where
  whole : typeOf? text = some type
  tight : (lex text).getLast?.any (·.gap == "") = true
  bodied : TypeBodied (lex text).dropLast

/-- What a production of the grammar gives for a text, from its first token to its last. -/
def whole? {α : Type} (p : Grammar → Parser α) (text : String) : Option α :=
  match p (Grammar.withLevels ((lex text).length + 1)) (.ofTokens (lex text)) with
  | .ok (a, c) => if c.check .endOfFile then some a else none
  | .error _ => none

/-- What a text that is read alone consists of. -/
theorem listing_of_whole {α : Type} {p : Grammar → Parser α} {text : String} {a : α}
    (hwhole : whole? p text = some a) (htight : (lex text).getLast?.any (·.gap == "") = true) :
    ∃ l : Listing, lex text = l.tokens ∧ l.file.start = text.utf8ByteSize ∧ l.file.gap = "" ∧
      ∃ d, d.kind = .endOfFile ∧
        p (Grammar.withLevels (l.front.length + 2)) (.between [] l.front l.file) = .ok (a, d) := by
  obtain ⟨l, hl, hstart⟩ := lex_listing text
  have hlength : (lex text).length = l.front.length + 1 := by rw [hl]; simp [Listing.tokens]
  rw [whole?, hlength] at hwhole
  rw [hl, Listing.tokens] at hwhole htight
  rw [Cursor.ofTokens_append] at hwhole
  rw [List.getLast?_concat] at htight
  refine ⟨l, hl, hstart, beq_iff_eq.1 htight, ?_⟩
  split at hwhole
  next a' d hrun =>
    split at hwhole
    next hcheck =>
      cases hwhole
      exact ⟨d, Cursor.kind_of_check hcheck, hrun⟩
    · cases hwhole
  · cases hwhole

theorem typeOf?_eq (text : String) : typeOf? text = whole? Grammar.type text := by
  rw [typeOf?, whole?]
  cases (Grammar.withLevels ((lex text).length + 1)).type (.ofTokens (lex text)) <;> rfl

/-- What a type that is read alone consists of. -/
theorem IsType.listing {text : String} {type : TypeNode} (h : IsType text type) :
    ∃ l : Listing, lex text = l.tokens ∧ l.file.start = text.utf8ByteSize ∧ l.file.gap = "" ∧
      TypeBodied l.front ∧ ∃ d, d.kind = .endOfFile ∧
        (Grammar.withLevels (l.front.length + 2)).type (.between [] l.front l.file) =
          .ok (type, d) := by
  obtain ⟨l, hl, hstart, hgap, hrun⟩ := listing_of_whole (typeOf?_eq text ▸ h.whole) h.tight
  have hbodied := h.bodied
  rw [hl, Listing.tokens, List.dropLast_concat] at hbodied
  exact ⟨l, hl, hstart, hgap, hbodied, hrun⟩

section

variable {l : Listing} {type : TypeNode} {d : Cursor} {next : Token} {levels levels' : Nat}

/-- A type that is read to the end of a text is read to the same place when a token follows that
goes on with nothing in it. -/
theorem Listing.type_carried (hbodied : TypeBodied l.front) (hlevels : l.front.length < levels)
    (hlevels' : l.front.length < levels') (hend : d.kind = .endOfFile)
    (hrun : (Grammar.withLevels levels).type (.between [] l.front l.file) = .ok (type, d))
    (hfollows : next.kind.follows = true) (hsettled : Token.goesOn true l.front next = false)
    (hpath : next.kind = .word → ∀ t ∈ l.front.getLast?, t.kind ≠ .dot) (more : List Token) :
    l.front.getLast?.any (Token.endKinds.contains ·.kind) = true ∧
      Reads (Grammar.withLevels levels').type l.front (next :: more) type := by
  have hcarried : ∀ c : Cursor, c.ahead = l.front ++ next :: more →
      l.front.getLast?.any (Token.endKinds.contains ·.kind) = true ∧
        (Grammar.withLevels levels').type c = .ok (type, c.advanceBy l.front.length) := by
    intro c hc
    let X : Seam := ⟨l.front, l.file, next, more, c.final, true, l.file_kind, l.front_kind, hbodied,
      hfollows, hsettled, hpath⟩
    have hnear : X.Near (.between [] l.front l.file) c :=
      ⟨[], ⟨rfl, rfl, hc, rfl, fun h => absurd rfl h⟩, rfl⟩
    have hkin := Grammar.withLevels_carries (X := X) hlevels hlevels'
    obtain ⟨d', hrun', ⟨⟨passed, halong, -⟩, -, hends⟩⟩ :=
      hkin.type hnear (.inr rfl) (Nat.lt_succ_self l.front.length) type d hrun
    have hnil : d.ahead = [] := halong.file_iff.1 hend
    obtain rfl : passed = l.front := by
      have hfront : l.front = passed ++ d.ahead := halong.front
      rw [hfront, hnil, List.append_nil]
    have hlast : l.front.getLast?.any (Token.endKinds.contains ·.kind) = true := by
      rwa [halong.before_eq] at hends
    have hne : l.front ≠ [] := fun hempty => by
      rw [hempty] at hlast
      cases hlast
    have hd' := halong.there hne
    rw [hnil, List.nil_append, ← Cursor.advanceBy_of_ahead hc hne] at hd'
    exact ⟨hlast, by rw [hrun', hd']⟩
  exact ⟨(hcarried ⟨none, l.front ++ next :: more, l.file⟩ rfl).1, fun c hc => (hcarried c hc).2⟩

/-- A listing with other text in front of it. -/
def Listing.placed (l : Listing) (front : String) (k : Nat) : Listing where
  front := Source.placed front k l.front
  file := l.file.shift k
  file_kind := l.file_kind
  front_kind t ht := by
    obtain ⟨u, hu, hface⟩ := List.mem_map.1
      (placed_faces front k l.front ▸ List.mem_map_of_mem (f := Token.face) ht)
    rw [← Token.kind_congr hface]
    exact l.front_kind u hu

/-- A text looks alike wherever it stands behind a token that ends no operand. -/
theorem Listing.twins_placed (hne : l.front ≠ []) (front : String) (k : Nat) (passed : List Token)
    (hfresh : ∀ t ∈ passed.getLast?, Cursor.operandEnds.contains t.kind = false) :
    Cursor.Twins l.front.length (fun start start' => start' = start + k)
      (.between [] l.front l.file)
      (.between passed (l.placed front k).front (l.placed front k).file) := by
  obtain ⟨rest, last, hbehind, htwins⟩ := l.twins_fresh front k passed hfresh
  rw [tokens, List.map_append, behind_append (by simpa using hne)] at hbehind
  obtain ⟨rfl, hlast⟩ := List.append_inj' hbehind rfl
  obtain rfl : l.file.shift k = last := (List.cons.inj hlast).1
  exact htwins

/-- Types are read alike wherever their text stands. -/
theorem Listing.type_placed (hne : l.front ≠ []) (hlevels : l.front.length < levels)
    (hend : d.kind = .endOfFile)
    (hrun : (Grammar.withLevels levels).type (.between [] l.front l.file) = .ok (type, d))
    (front : String) (k : Nat) :
    ∃ d', d'.kind = .endOfFile ∧ (Grammar.withLevels levels).type
      (.between [] (l.placed front k).front (l.placed front k).file) = .ok (type, d') := by
  have hkin := Grammar.withLevels_kin
    (Cursor.Twins.pairing l.front.length fun start start' => start' = start + k) hlevels hlevels
  obtain ⟨type', d', hrun', hd⟩ := (hkin.type (σ := [])
    (l.twins_placed hne front k [] (by simp)) trivial
      (Nat.lt_succ_self l.front.length)).outcome hrun
  have htype : type = type' := hd.eq (Nat.zero_le _)
  have hkind : d.kind = d'.kind := hd.near.kind 0
  exact ⟨d', hkind ▸ hend, htype ▸ hrun'⟩

end

namespace IsType

variable {text : String} {type : TypeNode}

/-- A type ends in a token that the text behind it leaves as it is. -/
theorem ends (h : IsType text type) :
    (lex text).dropLast.getLast?.any (Token.endKinds.contains ·.kind) = true := by
  obtain ⟨l, hl, -, -, hbodied, d, hend, hrun⟩ := h.listing
  rw [hl, Listing.tokens, List.dropLast_concat]
  let semicolon : Token := ⟨.semicolon, "", ";", 0⟩
  exact (l.type_carried hbodied (by omega) (Nat.lt_succ_self _) hend hrun
    (show semicolon.kind.follows = true from rfl) (Token.goesOn_of_kind (by decide) _ _)
    (by rintro ⟨⟩) []).1

theorem ne_nil (h : IsType text type) : (lex text).dropLast ≠ [] := fun hnil => by
  have hends := h.ends
  rw [hnil] at hends
  cases hends

theorem last_kind (h : IsType text type) (kind : Token.Kind)
    (hkind : Token.endKinds.contains kind = false) :
    ∀ t ∈ (lex text).dropLast.getLast?, t.kind ≠ kind := by
  rintro t ht rfl
  have hends := h.ends
  rw [Option.mem_def.1 ht, Option.any_some, hkind] at hends
  cases hends

/-- Wherever its text stands, a type is read up to a token that goes on with nothing in it. -/
theorem reads (h : IsType text type) {next : Token} (hfollows : next.kind.follows = true)
    (hsettled : Token.goesOn true (lex text).dropLast next = false) {levels : Nat}
    (hlevels : (lex text).length ≤ levels) (front : String) (k : Nat) (more : List Token) :
    Reads (Grammar.withLevels levels).type (placed front k (lex text).dropLast) (next :: more)
      type := by
  have hne := h.ne_nil
  have hdot := h.last_kind .dot rfl
  obtain ⟨l, hl, -, -, hbodied, d, hend, hrun⟩ := h.listing
  have hlength : (lex text).length = l.front.length + 1 := by rw [hl]; simp [Listing.tokens]
  rw [hl, Listing.tokens, List.dropLast_concat] at hne hsettled hdot ⊢
  obtain ⟨d', hend', hrun'⟩ := l.type_placed hne (by omega) hend hrun front k
  have hfaces := placed_faces front k l.front
  have hlength' := placed_length front k l.front
  refine ((l.placed front k).type_carried (typeBodied_congr hfaces.symm hbodied)
    (show (placed front k l.front).length < l.front.length + 2 by omega)
    (show (placed front k l.front).length < levels by omega) hend' hrun' hfollows
    ((Token.goesOn_congr true hfaces rfl).trans hsettled) (fun _ t ht => ?_) more).2
  have hlast :
    (placed front k l.front).getLast?.map Token.face = l.front.getLast?.map Token.face := by
    rw [← List.getLast?_map, ← List.getLast?_map, hfaces]
  rw [show (placed front k l.front).getLast? = some t from ht, Option.map_some] at hlast
  obtain ⟨u, hu, hface⟩ := Option.map_eq_some_iff.1 hlast.symm
  rw [← Token.kind_congr hface]
  exact hdot u hu

/-- No type starts with what a token in front of it has a say in. -/
theorem head_kind (h : IsType text type) :
    ∀ t ∈ (lex text).dropLast.head?, t.kind ≠ .regex ∧ t.kind ≠ .operator := by
  obtain ⟨l, hl, -, -, -, d, -, hrun⟩ := h.listing
  rw [hl, Listing.tokens, List.dropLast_concat]
  rintro t ht
  obtain ⟨ts, hfront⟩ := List.head?_eq_some_iff.1 ht
  have hkind : (Cursor.between [] l.front l.file).kind = t.kind := by
    rw [hfront]
    rfl
  exact ⟨fun hregex => Grammar.typeRule_start (.inl (hkind.trans hregex)) hrun,
    fun hoperator => Grammar.typeRule_start (.inr (hkind.trans hoperator)) hrun⟩

/-- In front of a line break, and of a semicolon that ends the line, a type has the tokens that it
has alone. -/
theorem scan (h : IsType text type) {stop : Char} {before : Option Token} {more gap : List Char}
    {offset : Nat} (hstop : stop ∈ Lexer.stops) (hnone : Lexer.ClosesNone (stop :: more)) :
    let front := placed (String.ofList gap) offset (lex text).dropLast
    Lexer.scan before gap offset 0 (text.toList ++ stop :: more) =
      front ++ Lexer.scan front.getLast? [] (offset + text.utf8ByteSize) 0 (stop :: more) := by
  have hne := h.ne_nil
  have hstray := h.last_kind .stray rfl
  have hhead := h.head_kind
  obtain ⟨l, hl, hstart, hgap, -⟩ := h.listing
  rw [hl, Listing.tokens, List.dropLast_concat] at hne hstray hhead ⊢
  rw [← hstart]
  exact Lexer.scan_placed hl hne hgap hstray hstop (.inl hnone) (.inr hhead)

end IsType

end HandlerWeave.Source
