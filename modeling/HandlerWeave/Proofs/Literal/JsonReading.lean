import HandlerWeave.Proofs.Literal.JsonLexemes
import HandlerWeave.Proofs.Literal.Unsupported
import HandlerWeave.Proofs.Source.ExpressionReading

/-!
Every text of JSON is a literal expression of the language, and is evaluated to the value that it
stands for.
-/
namespace HandlerWeave.JsonText

open Source Literal

variable {cs : List Char} {v : Literal} {es : List Expr}

/-- The expression is no more and no less than the value. -/
def Means (e : Expr) (v : Literal) : Prop := evaluate e = (v, [])

theorem means_array {items : List (List Char × Literal)}
    (h : List.Forall₂ (fun item e => Means e item.2) items es) :
    Means (.array es) (.array (items.map Prod.snd)) := by
  have hparts : es.map (fun e => (evaluate e).1) = items.map Prod.snd ∧
      es.flatMap (fun e => (evaluate e).2) = [] := by
    induction h with
    | nil => exact ⟨rfl, rfl⟩
    | cons he _ ih =>
        rw [Means] at he
        simp only [List.map_cons, List.flatMap_cons, he, ih, List.nil_append, and_self]
  rw [Means, evaluate_array, hparts.1, hparts.2]

/-- A member with this key, whose value means that of the text. -/
def MemberMeans (member : Key × List Char × Literal) (a : ObjectMember) : Prop :=
  ∃ e, a = .property member.1.name e ∧ Means e member.2.2

theorem means_object {members : List (Key × List Char × Literal)} {as : List ObjectMember}
    (h : List.Forall₂ MemberMeans members as) :
    Means (.object as)
      (.object (lastEntries (members.map fun member => (member.1.name, member.2.2)))) := by
  have hparts : as.filterMap memberPair? =
      members.map (fun member => (member.1.name, member.2.2)) ∧
      as.flatMap memberExcerpts = [] := by
    induction h with
    | nil => exact ⟨rfl, rfl⟩
    | cons he _ ih =>
        obtain ⟨e, rfl, he⟩ := he
        rw [Means] at he
        simp only [List.map_cons, List.filterMap_cons, List.flatMap_cons, memberPair?,
          memberExcerpts, he, ih, List.nil_append, and_self]
  rw [Means, evaluate_object, hparts.1, hparts.2]

theorem Numeral.means_size (n : Numeral) :
    Means (.number (String.ofList n.size)) (.number n.magnitude) := by
  rw [Means, evaluate, n.numberValue?_size]

theorem Numeral.means_negate (n : Numeral) :
    Means (.negate (.number (String.ofList n.size))) (.number (-n.magnitude)) := by
  rw [Means, evaluate, n.numberValue?_size]

theorem Blank.isBlank (h : Blank cs) : ∀ c ∈ cs, Source.isBlank c = true := by
  intro c hc
  have hblank : ∀ d ∈ [' ', '\t', '\n', '\r'], Source.isBlank d = true := by
    simp [Source.isBlank]
  exact hblank c (h c hc)

/-- Wherever the text stands, it is read as an expression that means the value. -/
def Reads (cs : List Char) (v : Literal) : Prop :=
  ∀ line, ∃ ms last e, Lexes line cs ms last ∧ ReadsExpr ms e ∧ Means e v

theorem reads_string {body : List Char} {s : String} (h : WritesBody body s.toList) :
    Reads (quoted body) (.string s) := by
  intro line
  have htext : Text.unquote (String.ofList (quoted body)) = s := by
    rw [h.unquote, String.ofList_toList]
  have hoperand : ReadsOperand [⟨.string, String.ofList (quoted body), line⟩] (.string s) :=
    string_operand rfl htext
  exact ⟨_, false, _, h.spells line, hoperand.expr, rfl⟩

theorem reads_number (n : Numeral) : Reads n.text (.number n.value) := by
  intro line
  have hnumeral : ∀ line, Lexes line n.size [⟨.number, String.ofList n.size, line⟩] false := by
    intro line
    have hspells : Lexes line (String.ofList n.size).toList _ false := .numeral n.isNumeral
    rwa [String.toList_ofList] at hspells
  have hoperand : ∀ line, ReadsOperand [⟨.number, String.ofList n.size, line⟩]
      (.number (String.ofList n.size)) := fun line => number_operand rfl
  rw [Numeral.text, Numeral.value]
  cases n.negative with
  | false => exact ⟨_, false, _, hnumeral line, (hoperand line).expr, n.means_size⟩
  | true =>
      exact ⟨_, false, _, .mark rfl (hnumeral false), (hoperand false).negate rfl,
        n.means_negate⟩

theorem reads_bool (b : Bool) :
    Reads (if b then "true" else "false").toList (.bool b) := by
  intro line
  have hword : IsWord (if b then "true" else "false") := by
    cases b <;> exact .inl (by decide)
  exact ⟨_, false, _, .word hword, (bool_operand rfl rfl).expr, rfl⟩

theorem Reads.spaced {front back : List Char} (hfront : Blank front) (h : Reads cs v)
    (hback : Blank back) : Reads (front ++ (cs ++ back)) v := by
  intro line
  obtain ⟨ms, last, e, hspells, hreads, hmeans⟩ := h (line || front.contains '\n')
  exact ⟨ms, _, e, .leading hfront.isBlank (hspells.trailing hback.isBlank), hreads, hmeans⟩

theorem reads_emptyArray {gap : List Char} (h : Blank gap) :
    Reads ('[' :: (gap ++ [']'])) (.array []) := fun _ =>
  ⟨_, false, _, .mark rfl ((Lexes.blanks h.isBlank).append (fun _ _ => edge_cons.2 (by decide))
    (.one rfl)), (emptyArray_operand rfl rfl).expr, rfl⟩

theorem reads_emptyObject {gap : List Char} (h : Blank gap) :
    Reads ('\x7b' :: (gap ++ ['\x7d'])) (.object []) := fun _ =>
  ⟨_, false, _, .mark rfl ((Lexes.blanks h.isBlank).append (fun _ _ => edge_cons.2 (by decide))
    (.one rfl)), (emptyObject_operand rfl rfl).expr, rfl⟩

theorem reads_array {items : List (List Char × Literal)} (hne : items ≠ [])
    (h : ∀ item ∈ items, Reads item.1 item.2) :
    Reads ('[' :: ([','].intercalate (items.map Prod.fst) ++ [']']))
      (.array (items.map Prod.snd)) := by
  intro line
  obtain ⟨ms, last, es, hspells, hjoined, hmeans⟩ := Lexes.joined hne h false
  exact ⟨_, false, _, .mark rfl (hspells.append (fun _ _ => edge_cons.2 (by decide)) (.one rfl)),
    (list_operand rfl rfl hjoined).expr, means_array hmeans⟩

/-- A key, a colon and a value are a member. -/
theorem reads_member {member : Key × List Char × Literal} (h : Reads member.2.1 member.2.2)
    (line : Bool) : ∃ ms last a, Lexes line (member.1.text ++ ':' :: member.2.1) ms last ∧
      ReadsEntry ms a ∧ MemberMeans member a := by
  obtain ⟨key, text, value⟩ := member
  obtain ⟨ms, last, e, hspells, hreads, hmeans⟩ := h false
  have hkey := (key.writes.spells (line || key.front.contains '\n')).trailing key.back_blank.isBlank
  have hcolon : Lexes (false || key.back.contains '\n') (':' :: text) (_ :: ms) last :=
    .mark rfl hspells
  have hmember := Lexes.leading key.front_blank.isBlank
    (hkey.append (fun _ _ => edge_cons.2 (by decide)) hcolon)
  have hname : Text.unquote (String.ofList (quoted key.body)) = key.name := by
    rw [key.writes.unquote, String.ofList_toList]
  rw [← List.append_assoc] at hmember
  exact ⟨_, last, _, hmember, property_member rfl hname rfl hreads, e, rfl, hmeans⟩

/-- Every text of JSON is read as an expression that means its value. -/
theorem Writes.reads (h : Writes cs v) : Reads cs v := by
  induction h with
  | string h => exact reads_string h
  | number n => exact reads_number n
  | bool b => exact reads_bool b
  | spaced hfront _ hback ih => exact ih.spaced hfront hback
  | emptyArray h => exact reads_emptyArray h
  | array hne _ ih => exact reads_array hne ih
  | emptyObject h => exact reads_emptyObject h
  | @object members hne _ ih =>
      intro line
      obtain ⟨ms, last, as, hspells, hjoined, hmeans⟩ :=
        Lexes.joined hne (fun member hmember => reads_member (ih member hmember)) false
      exact ⟨_, false, _, .mark rfl (hspells.append (fun _ _ => edge_cons.2 (by decide))
        (.one rfl)), (members_operand rfl rfl hjoined).expr, means_object hmeans⟩

/-- The text of a constant that is initialized with JSON is one variable statement, whose
initializer is evaluated to the value of the JSON text, and nothing in it is reported. -/
theorem constant_evaluates {text : String} (h : Writes text.toList v) :
    ∃ e, parse ("const x = " ++ text ++ ";") =
        .ok [.variableStatement ⟨false, [⟨"x", some e⟩]⟩] ∧ evaluate e = (v, []) := by
  obtain ⟨ms, last, e, hspells, hreads, hmeans⟩ := h.reads false
  refine ⟨e, ?_, hmeans⟩
  have hconst : IsWord "const" := .inl (by decide)
  have hname : IsWord "x" := .inl (by decide)
  let statement : List Mark :=
    .name "const" :: .name "x" :: .equals :: (ms ++ [⟨.semicolon, ";", last⟩])
  have htext : ("const x = " ++ text ++ ";").toList =
      "const".toList ++ ' ' :: ("x".toList ++ ' ' :: '=' :: ' ' :: (text.toList ++ [';'])) := by
    simp [String.toList_append]
  have hscans : Scans false ("const x = " ++ text ++ ";").toList (statement ++ [.final]) := by
    have hvalue : Scans false (text.toList ++ [';']) (ms ++ [⟨.semicolon, ";", last⟩, .final]) :=
      hspells _ _ (edge_cons.2 (by decide)) (.mark rfl scans_nil)
    have hequals : Scans false ('=' :: ' ' :: (text.toList ++ [';'])) _ :=
      .equals (starts_cons.2 (by decide)) hvalue.space
    rw [htext]
    simpa [statement, Mark.name, Mark.equals] using Scans.word hconst (edge_cons.2 (by decide))
      (Scans.word hname (edge_cons.2 (by decide)) hequals.space).space
  have harrow : ArrowFree statement := by
    simp [statement, Mark.equals, hreads.arrowFree]
  have hlength : ms.length ≤ statement.length + 2 := by
    simp only [statement, List.length_cons, List.length_append]
    omega
  have hitem : ReadsItem (Grammar.withLevels (statement.length + 2)) statement
      (.variableStatement ⟨false, [⟨"x", some e⟩]⟩) :=
    constant_readsItem (by decide) rfl hreads hlength rfl
  exact parse_of_statements harrow hscans hitem.statements

/-- The numeral `-2.50e+1`. -/
def negativeNumeral : Numeral where
  negative := true
  whole := ['2']
  fraction := ['5', '0']
  exponent := some ⟨'e', ['+'], ['1'], .inl rfl, .inr (.inl rfl), by decide, by simp [Digits]⟩
  whole_ne_nil := by decide
  whole_digits := by simp [Digits]
  leading := by decide
  fraction_digits := by simp [Digits]

/-- The key `a`, with this white space around it. -/
def keyA (front back : List Char) (hfront : Blank front) (hback : Blank back) : Key where
  front := front
  body := ['a']
  name := "a"
  back := back
  front_blank := hfront
  writes := .cons (.plain (by decide) (by decide) (by decide)) .nil
  back_blank := hback

theorem constant_evaluates_repeatedKey :
    Writes "\x7b\"a\": -2.50e+1,\n\"a\" : [\"\\u0041\\/\"]\x7d".toList
        (.object [("a", .array [.string "A/"])]) ∧
      ∃ e, parse ("const x = " ++ "\x7b\"a\": -2.50e+1,\n\"a\" : [\"\\u0041\\/\"]\x7d" ++ ";") =
          .ok [.variableStatement ⟨false, [⟨"x", some e⟩]⟩] ∧
        evaluate e = (.object [("a", .array [.string "A/"])], []) := by
  have hblank : Blank [] ∧ Blank [' '] ∧ Blank ['\n'] := by simp [Blank]
  have hnumber : Writes " -2.50e+1".toList (.number negativeNumeral.value) :=
    .spaced hblank.2.1 (.number negativeNumeral) hblank.1
  have hdigits : ∀ d ∈ [('0', 0), ('0', 0), ('4', 4), ('1', 1)], d ∈ hexDigits := by decide
  have hcode : WritesChar "\\u0041".toList 'A' := .code hdigits rfl (by decide)
  have hslash : WritesChar "\\/".toList '/' := .short (by decide)
  have hbody : WritesBody "\\u0041\\/".toList "A/".toList := .cons hcode (.cons hslash .nil)
  have hitems : ∀ item ∈ [("\"\\u0041\\/\"".toList, Literal.string "A/")],
      Writes item.1 item.2 := List.forall_mem_singleton.2 (.string hbody)
  have hlist : Writes " [\"\\u0041\\/\"]".toList (.array [.string "A/"]) :=
    .spaced hblank.2.1 (.array (by simp) hitems) hblank.1
  let members : List (Key × List Char × Literal) :=
    [(keyA [] [] hblank.1 hblank.1, " -2.50e+1".toList, .number negativeNumeral.value),
      (keyA ['\n'] [' '] hblank.2.2 hblank.2.1, " [\"\\u0041\\/\"]".toList,
        .array [.string "A/"])]
  have hmembers : ∀ member ∈ members, Writes member.2.1 member.2.2 :=
    List.forall_mem_cons.2 ⟨hnumber, List.forall_mem_singleton.2 hlist⟩
  have hobject : Writes "\x7b\"a\": -2.50e+1,\n\"a\" : [\"\\u0041\\/\"]\x7d".toList
      (.object [("a", .array [.string "A/"])]) := .object (List.cons_ne_nil _ _) hmembers
  exact ⟨hobject, constant_evaluates hobject⟩

end HandlerWeave.JsonText
