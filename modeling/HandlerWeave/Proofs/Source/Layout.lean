import HandlerWeave.Proofs.Source.Splitting
import HandlerWeave.Proofs.Source.TypeMarks

/-!
Texts of whole lines and the marks they are read as. What is fixed in a line is read alike wherever
the line stands, so its marks are those that it has alone; the rest of a line is put together from
its parts.
-/
namespace HandlerWeave.Source

open Lexer Mark

variable {line : Bool} {stop : Char} {cs rest : List Char} {ms ns : List Mark} {text : String}
  {texts : List String}

/-- A point that is neither one of three nor the front of a number. -/
theorem Scans.point (hrest : Starts (fun c => c ≠ '.' ∧ c.isDigit = false) rest)
    (h : Scans false rest ms) : Scans line ('.' :: rest) (⟨.dot, ".", line⟩ :: ms) := by
  refine @Scans.token _ _ _ _ _ [] (by decide) (fun before => ?_) h
  have hdots : ¬ ['.', '.'] <+: rest := by
    rintro ⟨tail, rfl⟩
    exact (starts_cons.1 hrest).1 rfl
  have hdigit : rest.head?.any Char.isDigit = false := by
    cases rest with
    | nil => rfl
    | cons c rest => exact (starts_cons.1 hrest).2
  rw [List.nil_append, lexeme_point, if_neg hdots, hdigit]
  rfl

theorem body_template (hquote : '`' ∉ cs) (hslash : '\\' ∉ cs) :
    body '`' (cs ++ '`' :: rest) = .closed (cs.length + 1) := by
  induction cs with
  | nil => rfl
  | cons c cs ih =>
      simp only [List.mem_cons, not_or] at hquote hslash
      have hgrow : body '`' (c :: (cs ++ '`' :: rest)) = (body '`' (cs ++ '`' :: rest)).grow 1 := by
        rw [body, if_neg (Ne.symm hquote.1)]
        · simp
        · rintro rfl
          exact absurd rfl hslash.1
        · rintro d r rfl
          exact absurd rfl hslash.1
      rw [List.cons_append, hgrow, ih hquote.2 hslash.2]
      rfl

/-- A text between backticks is one token, with its line breaks and its braces. -/
theorem Scans.template (hquote : '`' ∉ text.toList) (hslash : '\\' ∉ text.toList)
    (h : Scans false rest ms) :
    Scans line (("`" ++ text ++ "`").toList ++ rest)
      (⟨.template, "`" ++ text ++ "`", line⟩ :: ms) := by
  have hlist : ("`" ++ text ++ "`").toList = '`' :: (text.toList ++ ['`']) := by
    simp [String.toList_append]
  have hlexeme : ∀ before, lexeme before '`' (text.toList ++ ['`'] ++ rest) =
      (.token Token.Kind.template, (text.toList ++ ['`']).length) := by
    intro before
    have hdef : ∀ cs, lexeme before '`' cs = Lexer.quoted .template '`' cs := fun _ => rfl
    rw [hdef, List.append_assoc, List.singleton_append, Lexer.quoted, body_template hquote hslash,
      List.length_append]
    rfl
  have htoken : Scans line _ (_ :: ms) := .token (by decide) hlexeme h
  rwa [← hlist, String.ofList_toList, ← List.cons_append, ← hlist] at htoken

/-- The text ends in a token, and none of its tokens is one that other text before or behind it
could change. -/
def IsFixed (text : String) : Prop :=
  (lex text).dropLast ≠ [] ∧ (lex text).getLast?.any (·.gap == "") = true ∧
    ∀ t ∈ (lex text).dropLast, t.kind ∉ [.operator, .regex, .stray]

instance : Decidable (IsFixed text) := inferInstanceAs (Decidable (_ ∧ _ ∧ _))

/-- The marks of a text that starts on a new line or goes on with one. -/
def textMarks (line : Bool) (text : String) : List Mark :=
  ((lex text).dropLast.map Token.mark).modifyHead fun m => m.onLine (line || m.line)

theorem settled_of_kind {ts : List Token} (h : ∀ t ∈ ts, t.kind ≠ .operator)
    (before : Option Token) : Settled before ts := by
  induction ts generalizing before with
  | nil => trivial
  | cons t ts ih =>
      obtain ⟨ht, hts⟩ := List.forall_mem_cons.1 h
      refine ⟨fun hdivides => ?_, ih hts _⟩
      simp only [Token.divides, Bool.and_eq_true, beq_iff_eq] at hdivides
      exact absurd hdivides.1 ht

theorem placed_marks {gap : List Char} {offset : Nat} {ts : List Token}
    (h : ∀ t ∈ ts, t.kind ≠ .endOfFile) (hgap : gap.contains '\n' = line) :
    (placed (String.ofList gap) offset ts).map Token.mark =
      (ts.map Token.mark).modifyHead fun m => m.onLine (line || m.line) := by
  cases ts with
  | nil => rfl
  | cons t ts =>
      have hkind : (t.kind == .endOfFile) = false := by simpa using h t List.mem_cons_self
      subst hgap
      simp [placed, behind, Token.mark, Token.newlineBefore, Token.shift, Mark.onLine, hkind,
        Function.comp_def]

/-- In front of a stop a fixed text is read as its own marks, wherever it stands. -/
theorem Scans.fixed (hfixed : IsFixed text) (hstop : stop ∈ stops)
    (h : Scans false (stop :: rest) ms) :
    Scans line (text.toList ++ stop :: rest) (textMarks line text ++ ms) := by
  intro before gap offset hgap
  obtain ⟨hne, htight, hkinds⟩ := hfixed
  obtain ⟨l, hl, -⟩ := lex_listing text
  rw [textMarks]
  rw [hl, Listing.tokens, List.dropLast_concat] at hne hkinds ⊢
  rw [hl, Listing.tokens, List.getLast?_concat] at htight
  have hkind : ∀ t ∈ l.front, t.kind ≠ .operator ∧ t.kind ≠ .regex ∧ t.kind ≠ .stray := by
    simpa using hkinds
  rw [scan_placed hl hne (beq_iff_eq.1 htight) ?stray hstop ?slash ?head, List.map_append,
    placed_marks l.front_kind hgap]
  · rw [h _ _ _ rfl]
  case stray => exact fun t ht => (hkind t (List.mem_of_mem_getLast? ht)).2.2
  case slash => exact .inr (settled_of_kind (fun t ht => (hkind t ht).1) none)
  case head =>
    refine .inr fun t ht => ?_
    have := hkind t (List.mem_of_mem_head? ht)
    exact ⟨this.2.1, this.1⟩

/-- Lines that are read as these marks, whatever lines stand behind them. -/
def ReadsLines (text : String) (ms : List Mark) : Prop :=
  ∀ rest ns, Scans true rest ns → Scans true (text.toList ++ rest) (ms ++ ns)

namespace ReadsLines

variable {text' : String}

theorem empty : ReadsLines "" [] := fun _ _ h => h

theorem blank : ReadsLines "\n" [] := fun _ _ h => h.newline

theorem append (h : ReadsLines text ms) (h' : ReadsLines text' ns) :
    ReadsLines (text ++ text') (ms ++ ns) := by
  intro rest more hrest
  rw [String.toList_append, List.append_assoc, List.append_assoc]
  exact h _ _ (h' rest more hrest)

/-- A line that is read up to its end. -/
theorem of_line (h : ∀ rest ns, Scans false ('\n' :: rest) ns →
    Scans true (text.toList ++ '\n' :: rest) (ms ++ ns)) : ReadsLines (text ++ "\n") ms := by
  intro rest ns hrest
  simpa using h rest ns hrest.newline

theorem fixed (h : IsFixed text) : ReadsLines (text ++ "\n") (textMarks true text) :=
  .of_line fun _ _ hrest => .fixed h (by decide) hrest

end ReadsLines

end HandlerWeave.Source
