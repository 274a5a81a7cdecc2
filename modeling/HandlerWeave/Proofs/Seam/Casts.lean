import HandlerWeave.Proofs.Seam.Behind
import HandlerWeave.Proofs.Seam.Expressions

/-!
Casts at the end of a line. The initializer of a variable ends with the type that it is cast to, and
the next line starts with a declaration, whether a semicolon stands between them or not. Without the
semicolon the type must end in a token that can end an operand.
-/
namespace HandlerWeave.Source

open Source.Parser Source.Group

namespace Token

/-- The token that stands in front of an initializer. -/
def equalsSign : Token := ⟨.equals, "", "=", 0⟩

def castWord : Token := ⟨.word, "", "as", 0⟩

/-- The word `as` can be taken for more of an expression that ends in these tokens: it names what
`infer` binds, makes the result of a function a predicate, or is the parameter of an `async` arrow.
-/
def joinsCast (tokens : List Token) : Bool :=
  goesOn false tokens castWord ||
    (tokens.getLast?.any (·.isWord "async") && tokens.dropLast.getLast?.any (·.kind.leads none))

end Token

/-- A text is an expression that is not kept as text, and no blank and no comment ends it. -/
structure IsExpr (text : String) (expr : Expr) : Prop where
  whole : whole? Grammar.expr text = some expr
  structured : expr.Structured
  tight : (lex text).getLast?.any (·.gap == "") = true
  bodied : Bodied (Token.equalsSign :: (lex text).dropLast)
  slashes : Settled none (lex text).dropLast
  ends : Token.joinsCast (Token.equalsSign :: (lex text).dropLast) = false

section

variable {l : Listing} {expr : Expr} {t eq word next : Token} {c d : Cursor} {levels levels' : Nat}
  {more : List Token}

/-- Behind an equals sign an expression is read as it is read alone, wherever its text stands. -/
theorem Listing.expr_placed (hne : l.front ≠ []) (hlevels : l.front.length < levels)
    (hend : d.kind = .endOfFile)
    (hrun : (Grammar.withLevels levels).expr (.between [] l.front l.file) = .ok (expr, d))
    (front : String) (k : Nat) (heq : eq.kind = .equals) :
    ∃ d', d'.kind = .endOfFile ∧ (Grammar.withLevels levels).expr
      (.between [eq] (l.placed front k).front (l.placed front k).file) = .ok (expr, d') := by
  have hkin := Grammar.withLevels_kin
    (Cursor.Twins.pairing l.front.length fun start start' => start' = start + k) hlevels hlevels
  obtain ⟨expr', d', hrun', hd⟩ := (hkin.expr (σ := [])
    (l.twins_placed hne front k [eq] (by simp [heq, Cursor.operandEnds])) trivial
    (Nat.lt_succ_self l.front.length)).outcome hrun
  have hexpr : expr = expr' := hd.eq (Nat.zero_le _)
  have hkind : d.kind = d'.kind := hd.near.kind 0
  exact ⟨d', hkind ▸ hend, hexpr ▸ hrun'⟩

/-- An expression that is read to the end of a text is read alike in front of a token that it does
not go on with, up to the casts that follow. -/
theorem Listing.expr_carried {ts : List Token} (hfront : l.front = eq :: ts)
    (heq : eq.kind = .equals)
    (hbodied : Bodied l.front) (hlevels : ts.length < levels) (hlevels' : ts.length ≤ levels')
    (hstructured : expr.Structured) (hend : d.kind = .endOfFile)
    (hrun : (Grammar.withLevels levels).expr (.between [eq] ts l.file) = .ok (expr, d))
    (hfollows : next.kind.follows = true) (hsettled : Token.goesOn false l.front next = false)
    (hpath : next.kind = .word → ∀ t ∈ l.front.getLast?, t.kind ≠ .dot)
    (hasync : next.kind = .word → ∀ t ∈ l.front.getLast?, t.isWord "async" = true →
      l.front.dropLast.getLast?.any (·.kind.leads none) = false)
    (hc : c.ahead = ts ++ next :: more) (hbefore : c.before = some eq) :
    l.front.getLast?.any (Token.operandEndKinds.contains ·.kind) = true ∧
      ∀ e, (∀ rounds, (next :: more).length < rounds → (Grammar.withLevels levels').castLoop rounds
        (.between l.front (next :: more) c.final) = .ok ((), e)) →
        Grammar.atExprEnd e = true → (Grammar.withLevels (levels' + 1)).expr c = .ok (expr, e) := by
  obtain ⟨levels, rfl⟩ := Nat.exists_eq_add_one_of_ne_zero (Nat.ne_zero_of_lt hlevels)
  let X : Seam := ⟨l.front, l.file, next, more, c.final, false, l.file_kind, l.front_kind,
    fun _ => hbodied, hfollows, hsettled, hpath⟩
  have hnested : Nested [eq] := by
    rw [Nested, open?_cons_eq_some]
    exact ⟨[], open1?_other (by rw [heq]; rfl) (by rw [heq]; rfl), rfl⟩
  have hnear : X.Near (.between [eq] ts l.file) c :=
    ⟨[eq], ⟨hfront, rfl, hc, rfl, fun _ => hbefore⟩, hnested⟩
  have hoperand : (Cursor.between [eq] ts l.file).Operand [] := by
    show eq.kind.leads none = true
    rw [heq]
    rfl
  have hsynchronous : X.Synchronous := hasync
  have hkin := Grammar.withLevels_exprCarries (X := X) hbodied hsynchronous
    (Nat.le_of_lt_succ hlevels) hlevels'
  obtain ⟨d', ⟨⟨passed, halong, -⟩, -, hends⟩, hlast⟩ := Grammar.exprRule_carries hbodied
    hsynchronous hkin hnear hoperand (Nat.le_refl ts.length) hstructured hend hrun
  have hnil : d.ahead = [] := halong.file_iff.1 hend
  obtain rfl : passed = l.front := by
    have hall : l.front = passed ++ d.ahead := halong.front
    rw [hall, hnil, List.append_nil]
  have hd' := halong.there (by rw [hfront]; exact List.cons_ne_nil _ _)
  rw [hnil, List.nil_append] at hd'
  subst hd'
  refine ⟨?_, hlast⟩
  rwa [halong.before_eq] at hends

end

section

variable {g : Grammar} {word t next : Token} {ts rest : List Token} {type : TypeNode} {rounds : Nat}
  {c : Cursor}

theorem Reads.castRound (hword : word.isWord "as" = true) (hline : word.newlineBefore = false)
    (hconst : t.isWord "const" = false) (htype : Reads g.type (t :: ts) rest type) :
    Reads g.castRound (word :: t :: ts) rest true := by
  refine .look fun c hc => .ite_pos ?_
    (advance.bind_cons ((takeWord_no hconst).bind_nil (.ite_pos (by decide) (htype.then_pure))))
  simp [Cursor.seesAnyWord, Cursor.seesWord, Cursor.wordAt, Cursor.newlineBefore, Cursor.token,
    Cursor.tokenAt, hc, hword, hline]

/-- A cast stands on the line of its operand. -/
theorem Reads.castRound_none (h : next.kind = .word → next.newlineBefore = true) :
    Reads g.castRound [] (next :: rest) false := by
  refine .look fun c hc => .ite_neg ?_ .pure
  have htoken : c.tokenAt 0 = next := by simp [Cursor.tokenAt, hc]
  intro hcasts
  obtain ⟨hsees, hline⟩ := Bool.and_eq_true_iff.1 hcasts
  have hkind : next.kind = .word := by
    rw [← htoken]
    exact Cursor.kind_of_seesAnyWord hsees
  rw [Cursor.newlineBefore, Cursor.token, htoken, h hkind] at hline
  cases hline

/-- One cast, and nothing that is one behind it. -/
theorem Grammar.castLoop_cast (hround : Reads g.castRound ts (next :: rest) true)
    (hend : Reads g.castRound [] (next :: rest) false) (hc : c.ahead = ts ++ next :: rest)
    (hrounds : 1 < rounds) : g.castLoop rounds c = .ok ((), c.advanceBy ts.length) := by
  obtain ⟨rounds, rfl⟩ := Nat.exists_eq_add_of_lt hrounds
  have hplace : (c.advanceBy ts.length).ahead = next :: rest := by
    rw [Cursor.ahead_advanceBy, hc, List.drop_left]
  rw [show 1 + rounds + 1 = rounds + 1 + 1 by omega]
  exact castLoop_of_round (hround c hc) (castLoop_of_round (hend _ hplace) rfl)

end

/-- A statement that ends in the token `t` can end in front of `next`. -/
def Token.endsBefore (t next : Token) : Bool :=
  next.kind == .semicolon ||
    (next.kind == .word && next.newlineBefore && Cursor.operandEnds.contains t.kind)

theorem Token.endsBefore_follows {t next : Token} (h : t.endsBefore next = true) :
    next.kind.follows = true := by
  rw [endsBefore, Bool.or_eq_true, Bool.and_eq_true, Bool.and_eq_true, beq_iff_eq, beq_iff_eq] at h
  obtain hkind | ⟨⟨hkind, -⟩, -⟩ := h <;> rw [hkind] <;> rfl

namespace Token

variable {t u : Token} {ts us : List Token}

theorem joinsCast_congr (h : ts.map face = us.map face) : joinsCast ts = joinsCast us := by
  have hlast : ts.getLast?.map face = us.getLast?.map face := by
    rw [← List.getLast?_map, ← List.getLast?_map, h]
  have hbefore : ts.dropLast.getLast?.map face = us.dropLast.getLast?.map face := by
    rw [← List.getLast?_map, ← List.getLast?_map, List.map_dropLast, List.map_dropLast, h]
  rw [joinsCast, joinsCast, goesOn_congr false h rfl,
    any_congr (fun t u h => isWord_congr h "async") hlast,
    any_congr (fun t u h => by rw [kind_congr h]) hbefore]

end Token

namespace IsExpr

variable {text : String} {expr : Expr} {eq word next : Token} {levels : Nat} {more : List Token}
  {c : Cursor}

theorem listing (h : IsExpr text expr) :
    ∃ l : Listing, lex text = l.tokens ∧ l.file.start = text.utf8ByteSize ∧ l.file.gap = "" ∧
      l.front ≠ [] ∧ ∃ d, d.kind = .endOfFile ∧
        (Grammar.withLevels (l.front.length + 2)).expr (.between [] l.front l.file) =
          .ok (expr, d) := by
  obtain ⟨l, hl, hstart, hgap, d, hend, hrun⟩ := listing_of_whole h.whole h.tight
  refine ⟨l, hl, hstart, hgap, fun hnil => ?_, d, hend, hrun⟩
  -- an expression takes a token
  obtain ⟨rest, last, -, htwins⟩ := l.twins_fresh "" 0 [] (by simp)
  have hkin := Grammar.withLevels_kin (Cursor.Twins.pairing l.front.length fun start start' =>
    start' = start + 0) (Nat.le_succ (l.front.length + 1)) (Nat.le_succ (l.front.length + 1))
  obtain ⟨-, -, -, ⟨-, hlt, -⟩⟩ := (hkin.expr (σ := []) htwins trivial
    (Nat.lt_succ_self l.front.length)).outcome hrun
  rw [Cursor.between_left, hnil] at hlt
  exact absurd hlt (Nat.not_lt_zero _)

/-- An initializer with the equals sign in front of it, as a text of its own. -/
theorem behind_equals (h : IsExpr text expr) (heq : eq.face = Token.equalsSign.face)
    (front : String)
    (k : Nat) :
    ∃ l : Listing, l.front = eq :: placed front k (lex text).dropLast ∧ Bodied l.front ∧
      Token.joinsCast l.front = false ∧
      l.front.getLast?.any (Token.operandEndKinds.contains ·.kind) = true ∧
      ∃ levels d, (placed front k (lex text).dropLast).length < levels ∧ d.kind = .endOfFile ∧
        (Grammar.withLevels levels).expr
          (.between [eq] (placed front k (lex text).dropLast) l.file) =
          .ok (expr, d) := by
  have hbodied := h.bodied
  have hends := h.ends
  obtain ⟨l, hl, -, -, hne, d, hfile, hrun⟩ := h.listing
  rw [hl, Listing.tokens, List.dropLast_concat] at hbodied hends ⊢
  have hkind : eq.kind = .equals := Token.kind_congr heq
  obtain ⟨d', hfile', hrun'⟩ := l.expr_placed hne (by omega) hfile hrun front k hkind
  let l' : Listing :=
    ⟨eq :: placed front k l.front, (l.placed front k).file, (l.placed front k).file_kind,
    fun t ht => by
      obtain rfl | ht := List.mem_cons.1 ht
      · rw [hkind]
        decide
      · exact (l.placed front k).front_kind t ht⟩
  have hfaces : (Token.equalsSign :: l.front).map Token.face = l'.front.map Token.face := by
    rw [List.map_cons, List.map_cons, placed_faces, heq]
  have hlength := placed_length front k l.front
  have hbodied' : Bodied l'.front := (bodied_congr rfl hfaces).symm.trans hbodied
  let semicolon : Token := ⟨.semicolon, "", ";", 0⟩
  obtain ⟨hlast, -⟩ := l'.expr_carried rfl hkind hbodied' (by omega)
    (Nat.le_refl _) h.structured hfile' hrun' (show semicolon.kind.follows = true from rfl)
    (Token.goesOn_of_kind (by decide) _ _) (by rintro ⟨⟩) (by rintro ⟨⟩)
    (c := ⟨some eq, placed front k l.front ++ semicolon :: [], semicolon⟩) rfl rfl
  exact ⟨l', rfl, hbodied', (Token.joinsCast_congr hfaces).symm.trans hends, hlast, _, d', by omega,
    hfile', hrun'⟩

theorem ne_nil (h : IsExpr text expr) : (lex text).dropLast ≠ [] := by
  obtain ⟨l, hl, -, -, hne, -⟩ := h.listing
  rwa [hl, Listing.tokens, List.dropLast_concat]

/-- An expression ends in a token that the text behind it leaves as it is. -/
theorem ends_operand (h : IsExpr text expr) :
    (lex text).dropLast.getLast?.any (Token.operandEndKinds.contains ·.kind) = true := by
  have hequals : Token.equalsSign.face = Token.equalsSign.face := rfl
  obtain ⟨l, hfront, -, -, hlast, -⟩ := h.behind_equals hequals "" 0
  obtain ⟨t, ht⟩ := List.getLast?_isSome.2 h.ne_nil |> Option.isSome_iff_exists.1
  have hfaces := placed_faces "" 0 (lex text).dropLast
  have hplaced : (placed "" 0 (lex text).dropLast).getLast?.map Token.face = some t.face := by
    rw [← List.getLast?_map, hfaces, List.getLast?_map, ht]
    rfl
  obtain ⟨u, hu, hface⟩ := Option.map_eq_some_iff.1 hplaced
  rw [hfront, List.getLast?_cons, hu] at hlast
  rw [ht, Option.any_some, ← Token.kind_congr hface]
  exact hlast

/-- Behind an equals sign an expression is read up to the casts that follow its text. -/
theorem carried (h : IsExpr text expr) (heq : eq.face = Token.equalsSign.face) (front : String)
    (k : Nat) (hlevels : (lex text).length ≤ levels) (hnext : next.face = Token.castWord.face)
    (hc : c.ahead = placed front k (lex text).dropLast ++ next :: more)
      (hbefore : c.before = some eq)
    {e : Cursor}
    (hcasts : ∀ rounds, (next :: more).length < rounds → (Grammar.withLevels levels).castLoop rounds
      (.between (eq :: placed front k (lex text).dropLast) (next :: more) c.final) = .ok ((), e))
    (hend : Grammar.atExprEnd e = true) :
    (Grammar.withLevels (levels + 1)).expr c = .ok (expr, e) := by
  obtain ⟨l, hfront, hbodied, hends, hlast, fuel, d, hfuel, hfile, hrun⟩ :=
    h.behind_equals heq front k
  have hkind : eq.kind = .equals := Token.kind_congr heq
  have hlength := placed_length front k (lex text).dropLast
  rw [List.length_dropLast] at hlength
  rw [Token.joinsCast, Bool.or_eq_false_iff] at hends
  rw [← hfront] at hcasts
  refine (l.expr_carried hfront hkind hbodied hfuel (by omega) h.structured hfile hrun
    (by rw [Token.kind_congr hnext]; rfl) ((Token.goesOn_congr false rfl hnext).trans hends.1)
    (fun _ t ht hdot => ?_) (fun _ t ht hasync => ?_) hc hbefore).2 e hcasts hend
  · rw [Option.mem_def.1 ht, Option.any_some, hdot] at hlast
    cases hlast
  · have hleads := hends.2
    rw [Option.mem_def.1 ht, Option.any_some, hasync] at hleads
    exact hleads

end IsExpr

theorem Grammar.atExprEnd_of_endsBefore {passed more : List Token} {t next file : Token}
    (h : t.endsBefore next = true) (hlast : passed.getLast? = some t) :
    atExprEnd (.between passed (next :: more) file) = true := by
  have hkind : (Cursor.between passed (next :: more) file).kind = next.kind := rfl
  rw [Token.endsBefore, Bool.or_eq_true, beq_iff_eq] at h
  rw [atExprEnd, hkind]
  obtain h | h := h
  · rw [h]
    rfl
  · rw [Bool.and_eq_true, Bool.and_eq_true] at h
    refine Bool.or_eq_true_iff.2 (.inr ?_)
    rw [Cursor.Twins.atStatementBreak_eq]
    show (next.newlineBefore && (next.kind == .word || _) && passed.getLast?.any _) = true
    rw [hlast, h.1.1, h.1.2]
    exact h.2

section

variable {text typeText : String} {expr : Expr} {type : TypeNode} {eq word next : Token}
  {levels : Nat} {more : List Token}

/-- An initializer is read up to the end of the type that it is cast to. -/
theorem IsExpr.reads (h : IsExpr text expr) (htype : IsType typeText type)
    (heq : eq.face = Token.equalsSign.face) (hword : word.face = Token.castWord.face)
    (hline : word.newlineBefore = false)
    (hconst : (lex typeText).head?.any (·.isWord "const") = false)
    (hends : (lex typeText).dropLast.getLast?.any (·.endsBefore next) = true)
    (hsettled : Token.goesOn true (lex typeText).dropLast next = false)
    (hlevels : (lex text).length ≤ levels) (hlevels' : (lex typeText).length ≤ levels)
    (front front' : String) (k k' : Nat) :
    Reads (after .equals (Grammar.withLevels (levels + 1)).expr)
      (eq :: (placed front k (lex text).dropLast ++
        word :: placed front' k' (lex typeText).dropLast)) (next :: more) (some expr) := by
  have hfaces := placed_faces front' k' (lex typeText).dropLast
  have hlast :
    (placed front' k' (lex typeText).dropLast).getLast?.any (·.endsBefore next) = true := by
    rw [← hends]
    refine Token.any_congr (fun t u h => ?_)
      (by rw [← List.getLast?_map, ← List.getLast?_map, hfaces])
    rw [Token.endsBefore, Token.endsBefore, Token.kind_congr h]
  obtain ⟨last, hlast, hbefore⟩ := (Option.any_eq_true _ _).1 hlast
  have htype := htype.reads (Token.endsBefore_follows hbefore) hsettled hlevels' front' k' more
  obtain ⟨t, ts, hts⟩ : ∃ t ts, placed front' k' (lex typeText).dropLast = t :: ts :=
    List.exists_cons_of_ne_nil fun hnil => by rw [hnil] at hlast; cases hlast
  have hfirst : t.isWord "const" = false := by
    rw [hts] at hfaces
    obtain ⟨u, us, hu, hface, -⟩ := List.map_eq_cons_iff.1 hfaces.symm
    rw [← Token.isWord_congr hface]
    cases hlex : lex typeText with
    | nil => rw [hlex] at hu; cases hu
    | cons v vs =>
        rw [hlex] at hu hconst
        cases vs with
        | nil => cases hu
        | cons w vs =>
            obtain ⟨rfl, -⟩ := List.cons.inj hu
            exact hconst
  rw [hts] at htype hlast ⊢
  have hround : Reads (Grammar.withLevels levels).castRound (word :: t :: ts) (next :: more) true :=
    .castRound (Token.isWord_congr (u := Token.castWord) hword _) hline hfirst htype
  have hnone : Reads (Grammar.withLevels levels).castRound [] (next :: more) false :=
    .castRound_none fun hkind => by
      rw [Token.endsBefore, hkind] at hbefore
      simp only [Bool.and_eq_true, Bool.or_eq_true] at hbefore
      exact (hbefore.resolve_left (by decide)).1.2
  intro c hc
  let start : Cursor := .between [eq] (placed front k (lex text).dropLast ++
    (word :: t :: ts ++ next :: more)) c.final
  let behind : Cursor := .between (eq :: (placed front k (lex text).dropLast ++ word :: t :: ts))
    (next :: more) c.final
  have hstart : c.advance = start := by
    rw [Cursor.advance, hc, List.cons_append]
    simp [start, Cursor.between]
  have hbehind : start.advanceBy (placed front k (lex text).dropLast ++ word :: t :: ts).length =
      behind := by
    have hplace :=
      Cursor.between_advanceBy [eq] (placed front k (lex text).dropLast ++ word :: t :: ts)
      (next :: more) c.final
    rwa [List.append_assoc] at hplace
  have hlast : behind.before = some last := by
    show (eq :: (placed front k (lex text).dropLast ++ word :: t :: ts)).getLast? = some last
    rw [← List.cons_append, List.getLast?_append, List.getLast?_cons_cons, hlast]
    rfl
  have hcasts : ∀ rounds, (word :: (t :: ts ++ next :: more)).length < rounds →
      (Grammar.withLevels levels).castLoop rounds
        (.between (eq :: placed front k (lex text).dropLast)
        (word :: t :: ts ++ next :: more) c.final) = .ok ((), behind) := by
    intro rounds hrounds
    rw [List.length_cons, List.length_append, List.length_cons] at hrounds
    have hloop := Grammar.castLoop_cast (c := .between (eq :: placed front k (lex text).dropLast)
      (word :: t :: ts ++ next :: more) c.final) hround hnone rfl (by omega : 1 < rounds)
    rw [Cursor.between_advanceBy] at hloop
    exact hloop
  have hexpr : (Grammar.withLevels (levels + 1)).expr start = .ok (expr, behind) :=
    h.carried heq front k hlevels hword rfl rfl hcasts
      (Grammar.atExprEnd_of_endsBefore hbefore hlast)
  have htakes : takeKind .equals c = .ok (true, start) := by
    rw [← hstart]
    refine if_pos (beq_iff_eq.2 ?_)
    rw [Cursor.kind, Cursor.kindAhead, Cursor.tokenAt, hc]
    exact Token.kind_congr heq
  show _ = Except.ok (some expr, c.advance.advanceBy
    (placed front k (lex text).dropLast ++ word :: t :: ts).length)
  rw [hstart, hbehind]
  refine bind_eq_ok.2 ⟨true, start, htakes, ?_⟩
  show (some <$> (Grammar.withLevels (levels + 1)).expr) start = _
  rw [map_run, hexpr]
  rfl

end

section

variable {α : Type} {g : Grammar} {item : Parser α} {a : α} {separator : Token.Kind}
  {word name eq : Token} {ts us rest : List Token} {expr : Expr} {b : Binding} {taken : Bool}

theorem Reads.separated_one (hitem : Reads item ts rest a)
    (hstop : Reads (takeKind separator) [] rest false) :
    Reads (separated separator item) ts rest [a] := by
  intro c hc
  refine bind_eq_ok.2 ⟨a, _, hitem c hc, bind_eq_ok.2 ⟨false, _, hstop _ ?_, rfl⟩⟩
  rw [Cursor.ahead_advanceBy, hc, List.drop_left]
  rfl

theorem Reads.binding (hname : name.kind = .word) (heq : eq.kind = .equals)
    (hvalue : Reads (after .equals g.expr) (eq :: ts) rest (some expr)) :
    Reads g.binding (name :: eq :: ts) rest ⟨name.text, some expr⟩ := by
  have hbindingName : Reads (Grammar.bindingName "binding name") [name] (eq :: ts ++ rest)
      name.text := by
    refine .look fun c hc => ?_
    have hkind : c.kind = .word := by
      simp [Cursor.kind, Cursor.kindAhead, Cursor.tokenAt, hc, hname]
    rw [hkind]
    exact takeText
  refine hbindingName.bind_cons (bind_nil (takeKind_no ?_) (bind_nil (after_no ?_)
    hvalue.then_pure))
  · rw [heq]
    decide
  · rw [heq]
    decide

/-- A variable statement with one binding. -/
theorem Reads.variableStatement (hword : word.isWord "const" = true) (hname : name.kind = .word)
    (henum : name.isWord "enum" = false) (hbinding : Reads g.binding (name :: ts) (us ++ rest) b)
    (hcomma : Reads (takeKind .comma) [] (us ++ rest) false)
    (hend : Reads (takeKind .semicolon) us rest taken) :
    Reads (g.declaration {} []) (word :: (name :: ts ++ us)) rest
      (some (.variableStatement ⟨false, [b]⟩)) := by
  have hstatement : Reads (g.variableStatement {}) (word :: (name :: ts ++ us)) rest
      ⟨false, [b]⟩ :=
    advance.bind_cons ((separated_one hbinding hcomma).bind hend.then_pure)
  refine .look fun c hc => ?_
  have hsees (w : String) : c.seesWord w = word.isWord w := by
    simp [Cursor.seesWord, Cursor.wordAt, Cursor.tokenAt, hc]
  have hother {w : String} (hne : "const" ≠ w) : c.seesWord w = false :=
    (hsees w).trans (Token.isWord_ne hword hne)
  have hkind : c.kindAhead 1 = .word := by
    simp [Cursor.kindAhead, Cursor.tokenAt, hc, hname]
  have hnext : c.wordAt 1 "enum" = false := by
    simp [Cursor.wordAt, Cursor.tokenAt, hc, henum]
  exact .ite_neg (by simp [hother (w := "import") (by decide)])
    (.ite_neg (by simp [hother (w := "class") (by decide)])
    (.ite_neg (by simp [hother (w := "interface") (by decide)])
    (.ite_neg (by simp [hother (w := "enum") (by decide), hnext])
    (.ite_neg (by simp [hother (w := "type") (by decide)])
    (.ite_pos (by simp [Cursor.seesAnyWord, hsees, hword, hkind]) hstatement.then_pure)))))

end

/-- A variable whose initializer is cast to a type, in front of another text. -/
def castText (semicolon : Bool) (expr type text : String) : String :=
  "const x = " ++ expr ++ " as " ++ type ++ (if semicolon then ";\n" else "\n") ++ text

section

variable {expr type text : String} {e : Expr} {t : TypeNode}

namespace IsExpr

/-- In front of a blank an expression has the tokens that it has alone. -/
theorem scan (h : IsExpr expr e) {before : Option Token} (hbefore : Lexer.opensRegex before = true)
    (gap : List Char) (offset : Nat) (more : List Char) :
    let front := placed (String.ofList gap) offset (lex expr).dropLast
    Lexer.scan before gap offset 0 (expr.toList ++ ' ' :: more) =
      front ++ Lexer.scan front.getLast? [] (offset + expr.utf8ByteSize) 0 (' ' :: more) := by
  have hslashes := h.slashes
  have hlast := h.ends_operand
  obtain ⟨l, hl, hstart, hgap, hne, -⟩ := h.listing
  rw [hl, Listing.tokens, List.dropLast_concat] at hslashes hlast ⊢
  rw [← hstart]
  refine Lexer.scan_placed hl hne hgap (fun t ht hstray => ?_) (by decide) (.inr hslashes)
    (.inl hbefore)
  rw [Option.mem_def.1 ht, Option.any_some, hstray] at hlast
  cases hlast

end IsExpr

namespace Lexer

theorem scan_equals (before : Option Token) (gap : List Char) (offset : Nat) (rest : List Char) :
    let eq : Token := ⟨.equals, String.ofList gap, "=", offset⟩
    scan before gap offset 0 ('=' :: ' ' :: rest) =
      eq :: scan (some eq) [] (offset + 1) 0 (' ' :: rest) := by
  rfl

theorem scan_const (rest : List Char) :
    ∃ const name eq gap offset, const.face = (Token.Kind.word, "const") ∧
      name.face = (Token.Kind.word, "x") ∧ eq.face = Token.equalsSign.face ∧
      scan none [] 0 0 ("const x = ".toList ++ rest) =
        const :: name :: eq :: scan (some eq) gap offset 0 rest := by
  have hsplit : "const x = ".toList ++ rest =
      "const".toList ++ ' ' :: ("x".toList ++ ' ' :: '=' :: ' ' :: rest) := by
    simp
  rw [hsplit, scan_word_eq (.inl rfl) (edge_cons.2 (by decide)), scan_blank (by decide),
    scan_word_eq (.inl rfl) (edge_cons.2 (by decide)), scan_blank (by decide), scan_equals,
    scan_blank (by decide)]
  refine ⟨_, _, _, _, _, ?_, ?_, ?_, rfl⟩ <;> rfl

theorem scan_as (before : Option Token) (offset : Nat) (rest : List Char) :
    ∃ word gap offset', word.face = Token.castWord.face ∧ word.newlineBefore = false ∧
      scan before [] offset 0 (" as ".toList ++ rest) = word ::
          scan (some word) gap offset' 0 rest := by
  have hsplit : " as ".toList ++ rest = ' ' :: ("as".toList ++ ' ' :: rest) := by simp
  rw [hsplit, scan_blank (by decide), scan_word_eq (.inl rfl) (edge_cons.2 (by decide)),
    scan_blank (by decide)]
  let word : Token := ⟨.word, String.ofList ([] ++ [' ']), "as", offset + ' '.utf8Size⟩
  have hline : word.newlineBefore = false := by simp [Token.newlineBefore, word]
  exact ⟨word, _, _, rfl, hline, rfl⟩

/-- What ends the line, and the tokens of the text behind it. -/
theorem scan_end (semicolon : Bool) {text : String} (htext : ∀ t ∈ (lex text).head?, t.kind = .word)
    (before : Option Token) (offset : Nat) :
    ∃ ts k, ts.map Token.kind = (if semicolon then [.semicolon] else []) ∧
      scan before [] offset 0 ((if semicolon then ";\n" else "\n").toList ++ text.toList) =
        ts ++ behind "\n" ((lex text).map (Token.shift k)) := by
  have hline : ∀ before offset, scan before [] offset 0 ('\n' :: text.toList) =
      behind "\n" ((lex text).map (Token.shift (offset + '\n'.utf8Size))) := by
    intro before offset
    rw [scan_blank (by decide)]
    refine scan_shift ['\n'] (offset + '\n'.utf8Size) text.toList [] 0 0 (.inr fun t ht => ?_)
    rw [htext t ht]
    decide
  cases semicolon with
  | false => exact ⟨[], _, rfl, hline before offset⟩
  | true =>
      obtain ⟨semicolon, offset', hkind, hscan⟩ :=
        scan_mark (c := ';') rfl before [] offset ('\n' :: text.toList)
      refine ⟨[semicolon], offset' + '\n'.utf8Size, by simp [hkind], ?_⟩
      have hsplit : (if true then ";\n" else "\n").toList ++ text.toList =
          ';' :: '\n' :: text.toList := by simp
      rw [hsplit, hscan, hline]
      rfl

end Lexer

/-- The tokens of a cast. -/
theorem lex_castText (hexpr : IsExpr expr e) (htype : IsType type t) (semicolon : Bool)
    (htext : ∀ t ∈ (lex text).head?, t.kind = .word) :
    ∃ const name eq word front front' k k' ts shift,
      const.face = (Token.Kind.word, "const") ∧ name.face = (Token.Kind.word, "x") ∧
      eq.face = Token.equalsSign.face ∧ word.face = Token.castWord.face ∧
      word.newlineBefore = false ∧
      ts.map Token.kind = (if semicolon then [.semicolon] else []) ∧
      lex (castText semicolon expr type text) =
        const :: (name :: eq :: (placed front k (lex expr).dropLast ++
          word :: placed front' k' (lex type).dropLast) ++ ts) ++
          behind "\n" ((lex text).map (Token.shift shift)) := by
  have hsplit : (castText semicolon expr type text).toList = "const x = ".toList ++ (expr.toList ++
      (" as ".toList ++ (type.toList ++
        ((if semicolon then ";\n" else "\n").toList ++ text.toList)))) := by
    simp [castText, String.toList_append]
  obtain ⟨stop, more, hstop, hmore, hnone⟩ : ∃ stop more,
      (if semicolon then ";\n" else "\n").toList ++ text.toList = stop :: more ∧
        stop ∈ Lexer.stops ∧ Lexer.ClosesNone (stop :: more) := by
    cases semicolon with
    | false => exact ⟨'\n', text.toList, by simp, by decide, Lexer.closesNone_line _⟩
    | true => exact ⟨';', '\n' :: text.toList, by simp, by decide, Lexer.closesNone_semicolon _⟩
  have hblank (rest : List Char) : " as ".toList ++ rest = ' ' :: ("as ".toList ++ rest) := by simp
  obtain ⟨const, name, eq, gap, offset, hconst, hname, heq, hscan⟩ :=
    Lexer.scan_const (expr.toList ++ (" as ".toList ++ (type.toList ++
      ((if semicolon then ";\n" else "\n").toList ++ text.toList))))
  have hopens : Lexer.opensRegex (some eq) = true := by
    rw [Lexer.opensRegex, Token.kind_congr heq]
    rfl
  have hscan₂ := hexpr.scan hopens gap offset ("as ".toList ++ (type.toList ++
    ((if semicolon then ";\n" else "\n").toList ++ text.toList)))
  rw [← hblank] at hscan₂
  obtain ⟨word, gap', offset', hword, hline, hscan₃⟩ := Lexer.scan_as
    (placed (String.ofList gap) offset (lex expr).dropLast).getLast? (offset + expr.utf8ByteSize)
    (type.toList ++ ((if semicolon then ";\n" else "\n").toList ++ text.toList))
  have hscan₄ : Lexer.scan (some word) gap' offset' 0 _ = _ := htype.scan hmore hnone
  rw [← hstop] at hscan₄
  obtain ⟨ts, shift, hts, hscan₅⟩ := Lexer.scan_end semicolon htext
    (placed (String.ofList gap') offset' (lex type).dropLast).getLast? (offset' + type.utf8ByteSize)
  refine ⟨const, name, eq, word, String.ofList gap, String.ofList gap', offset, offset', ts, shift,
    hconst,
    hname, heq, hword, hline, hts, ?_⟩
  rw [lex, hsplit, hscan, hscan₂, hscan₃, hscan₄, hscan₅]
  simp

/-- The type ends in a token that an operand can end in, and does not go on with the word `first`.
-/
def TypeEnds (type : String) (first : Token) : Prop :=
  (lex type).dropLast.getLast?.any (·.kind == .greater) = false ∧
    Token.goesOn true (lex type).dropLast first = false

theorem IsType.endsBefore (htype : IsType type t) {first next : Token} (hends : TypeEnds type first)
    (hkind : next.kind = .word) (hline : next.newlineBefore = true) :
    (lex type).dropLast.getLast?.any (·.endsBefore next) = true := by
  have hlast := htype.ends
  have hgreater := hends.1
  cases hend : (lex type).dropLast.getLast? with
  | none =>
      rw [hend] at hlast
      cases hlast
  | some last =>
      rw [hend] at hlast hgreater
      have hoperand : ∀ kind : Token.Kind, Token.endKinds.contains kind = true →
          (kind == .greater) = false → Cursor.operandEnds.contains kind = true := by
        intro kind
        cases kind <;> decide
      rw [Option.any_some, Token.endsBefore, hkind, hline, hoperand _ hlast hgreater]
      rfl

/-- The variable is bound to what is cast, and what stands behind it is read as it is read alone. -/
theorem parse_castText {items : List Item} {first : Token} (semicolon : Bool)
    (hexpr : IsExpr expr e)
    (htype : IsType type t) (hconst : (lex type).head?.any (·.isWord "const") = false)
    (hparse : parse text = .ok items) (hfirst : (lex text).head? = some first)
    (hword : first.kind = .word) (hends : semicolon = false → TypeEnds type first) :
    parse (castText semicolon expr type text) =
      .ok (.variableStatement ⟨false, [⟨"x", some e⟩]⟩ :: items) := by
  have hstarts : ∀ t ∈ (lex text).head?, t.kind = .word := fun t ht => by
    rw [hfirst] at ht
    cases ht
    exact hword
  obtain ⟨const, name, eq, word, front, front', k, k', ts, shift, hc, hn, heq, hw, hline, hts,
    hlex⟩ :=
    lex_castText hexpr htype semicolon hstarts
  have hisConst : const.isWord "const" = true :=
    Token.isWord_congr (u := ⟨.word, "", "const", 0⟩) hc _
  have henum : name.isWord "enum" = false := Token.isWord_congr (u := ⟨.word, "", "x", 0⟩) hn _
  obtain ⟨hname, hx⟩ := Prod.mk.inj hn
  refine parse_behind hparse hfirst hword (List.cons_ne_nil _ _) hlex
    fun levels next more hlevels hface hgap => ?_
  have hnext : next.kind = .word := (Token.kind_congr hface).trans hword
  simp only [List.length_cons, List.length_append, placed_length, List.length_dropLast] at hlevels
  -- the initializer in front of a token that ends the statement
  have hbinding {u : Token} {us : List Token}
      (hends : (lex type).dropLast.getLast?.any (·.endsBefore u) = true)
      (hsettled : Token.goesOn true (lex type).dropLast u = false) :
      Reads (Grammar.withLevels (levels + 1)).binding
        (name :: eq :: (placed front k (lex expr).dropLast ++
        word :: placed front' k' (lex type).dropLast)) (u :: us) ⟨"x", some e⟩ := by
    rw [← hx]
    exact .binding hname (Token.kind_congr heq)
      (hexpr.reads htype heq hw hline hconst hends hsettled
      (by omega) (by omega) front front' k k')
  refine .statementRound (Prod.mk.inj hc).1 (.statement (Prod.mk.inj hc).1 (fun w hw =>
    Token.isWord_ne hisConst ?_) ?_)
  · rintro rfl
    exact absurd hw (by decide)
  cases semicolon with
  | true =>
      obtain ⟨closing, _, rfl, hkind, hnil⟩ := List.map_eq_cons_iff.1 hts
      obtain rfl := List.map_eq_nil_iff.1 hnil
      have hends : (lex type).dropLast.getLast?.any (·.endsBefore closing) = true := by
        obtain ⟨last, hlast⟩ := Option.isSome_iff_exists.1 (List.getLast?_isSome.2 htype.ne_nil)
        rw [hlast, Option.any_some, Token.endsBefore, hkind]
        rfl
      exact .variableStatement hisConst hname henum
        (hbinding hends (Token.goesOn_of_kind (by rw [hkind]; decide) _ _))
        (.takeKind_no (by rw [hkind]; decide)) (.takeKind_yes hkind)
  | false =>
      obtain rfl : ts = [] := List.map_eq_nil_iff.1 hts
      have hends := hends rfl
      have hnewline : next.newlineBefore = true := by
        simp [Token.newlineBefore, hgap, String.toList_append]
      exact .variableStatement hisConst hname henum
        (hbinding (htype.endsBefore hends hnext hnewline)
          ((Token.goesOn_congr true rfl hface).trans hends.2))
        (.takeKind_no (by rw [hnext]; decide)) (.takeKind_no (by rw [hnext]; decide))

/-- A cast ends at the line as it ends at a semicolon, if its type does not end in a bracket of type
arguments and does not go on with the first word of the next line. -/
theorem casts_end_at_line {items : List Item} {first : Token} (hexpr : IsExpr expr e)
    (htype : IsType type t) (hconst : (lex type).head?.any (·.isWord "const") = false)
    (hparse : parse text = .ok items) (hfirst : (lex text).head? = some first)
    (hword : first.kind = .word) (hends : TypeEnds type first) :
    parse (castText false expr type text) = parse (castText true expr type text) ∧
      parse (castText true expr type text) =
        .ok (.variableStatement ⟨false, [⟨"x", some e⟩]⟩ :: items) := by
  have hline : parse (castText false expr type text) = _ :=
    parse_castText false hexpr htype hconst hparse hfirst hword fun _ => hends
  have hsemicolon : parse (castText true expr type text) = _ :=
    parse_castText true hexpr htype hconst hparse hfirst hword (by rintro ⟨⟩)
  exact ⟨hline.trans hsemicolon.symm, hsemicolon⟩

end

theorem casts_end_at_line_names :
    let item : Item := .interfaceDef ⟨"A", { exported := true }, [], [], []⟩
    IsExpr "f(-1)" (.call (.name "f") [.negate (.number "1")]) ∧
      IsType "string[]" (.array (.keyword .string)) ∧
      parse "export interface A {}" = .ok [item] ∧
      parse "const x = f(-1) as string[]\nexport interface A {}" =
        .ok [.variableStatement ⟨false, [⟨"x", some (.call (.name "f") [.negate (.number "1")])⟩]⟩,
          item] := by
  intro item
  have hlex : (lex "f(-1)").dropLast = [⟨.word, "", "f", 0⟩, ⟨.leftParen, "", "(", 1⟩,
    ⟨.minus, "", "-", 2⟩, ⟨.number, "", "1", 3⟩, ⟨.rightParen, "", ")", 4⟩] := by rfl
  have hexpr : IsExpr "f(-1)" (.call (.name "f") [.negate (.number "1")]) :=
    ⟨rfl, trivial, by decide +kernel, by decide +kernel, by rw [hlex]; simp [Settled,
      Token.divides],
      by decide +kernel⟩
  have htype : IsType "string[]" (.array (.keyword .string)) :=
    ⟨rfl, by decide +kernel, by decide +kernel⟩
  have hparse : parse "export interface A {}" = .ok [item] := by rfl
  have hfirst : (lex "export interface A {}").head? = some ⟨.word, "", "export", 0⟩ := by rfl
  have hboth := casts_end_at_line hexpr htype (by decide +kernel) hparse hfirst rfl
    ⟨by decide +kernel, by decide +kernel⟩
  have htext : castText false "f(-1)" "string[]" "export interface A {}" =
      "const x = f(-1) as string[]\nexport interface A {}" := by rfl
  rw [← htext]
  exact ⟨hexpr, htype, hparse, hboth.1.trans hboth.2⟩

/-- Behind a bracket that closes type arguments the next line is taken for more of the initializer,
and what it declares is lost. -/
theorem casts_not_end_at_line :
    let item : Item := .interfaceDef ⟨"A", { exported := true }, [], [], []⟩
    whole? Grammar.expr "1" = some (.number "1") ∧
      typeOf? "Array<string>" = some (.reference ⟨none, "Array"⟩ [.keyword .string]) ∧
      parse "export interface A {}" = .ok [item] ∧
      parse "const x = 1 as Array<string>;\nexport interface A {}" =
        .ok [.variableStatement ⟨false, [⟨"x", some (.number "1")⟩]⟩, item] ∧
      parse "const x = 1 as Array<string>\nexport interface A {}" =
        .ok [.variableStatement ⟨false,
          [⟨"x", some (.verbatim "1 as Array<string>\nexport interface A {}")⟩]⟩] := by
  exact ⟨by rfl, by rfl, by rfl, by rfl, by rfl⟩

end HandlerWeave.Source
